import Mathlib

/-!
# The event ids of requests

The model of `EventIdTSS` and of the constructor of `EventId` (`EventId.cpp`), and of
`TcrMessage::writeEventIdPart` with its callers (`TcrMessage.cpp`). A thread has a thread id and a
sequence number, which its first request sets up. A request takes the next sequence number of its
thread, and a bulk request goes on to reserve one number for each further entry.

The number of further entries is the size of a container less one. It comes to the constructor as
`uint32_t`, through two different casts. The full value that is sent after a failed delta takes no
number: its id is the last one that the thread has taken.

The counters are `int64_t`, and a container size is a `size_t` of 64 bits. The member id, the
bucket id and the breadcrumb counter of an event id are not part of the event-id part of a request
and are left out.
-/

set_option autoImplicit false

namespace GeodeNative.Events

/-- The thread-local `EventIdTSS`. -/
structure EventIdTSS where
  eidThrTSS : BitVec 64
  eidSeqTSS : BitVec 64
  deriving DecidableEq, Repr

/-- The thread id and the sequence number of an `EventId`. -/
structure EventId where
  eidThr : BitVec 64
  eidSeq : BitVec 64
  deriving DecidableEq, Repr

/-- `EventIdTSS::getAndIncEidSeq`: the object afterwards. -/
def EventIdTSS.getAndIncEidSeq (e : EventIdTSS) : EventIdTSS :=
  { e with eidSeqTSS := e.eidSeqTSS + 1 }

/-- `EventIdTSS::getSeqNum`. -/
def EventIdTSS.getSeqNum (e : EventIdTSS) : BitVec 64 := e.eidSeqTSS - 1

/-- `EventId::EventId(true, reserveSize, fullValueAfterDeltaFail)` on a thread with the object
`e`. -/
def EventId.new (e : EventIdTSS) (reserveSize : BitVec 32) (fullValueAfterDeltaFail : Bool) :
    EventId × EventIdTSS :=
  let r : EventId × EventIdTSS :=
    if fullValueAfterDeltaFail then (⟨e.eidThrTSS, e.getSeqNum⟩, e)
    else (⟨e.eidThrTSS, e.eidSeqTSS⟩, e.getAndIncEidSeq)
  (r.1, EventIdTSS.getAndIncEidSeq^[reserveSize.toNat] r.2)

/-- The objects of the threads that have made a request, and `s_eidThrId`. -/
structure Threads (T : Type) where
  eidThrId : BitVec 64
  tss : AList fun _ : T => EventIdTSS

/-- A request with an event-id part: one for a single entry, the full value after a delta that
failed, and the two bulk requests with the sizes of their containers. -/
inductive Request where
  | single
  | fullValueAfterDeltaFail
  | putAll (size : BitVec 64)
  | removeAll (size : BitVec 64)
  deriving DecidableEq, Repr

namespace Request

/-- The `reserveSize` that the constructor of the message passes on. `TcrMessagePutAll` casts the
size and subtracts one, `TcrMessageRemoveAll` subtracts one and casts. -/
def reserveSize : Request → BitVec 32
  | single | fullValueAfterDeltaFail => 0
  | putAll size => size.setWidth 32 - 1
  | removeAll size => (size - 1).setWidth 32

/-- The argument `fullValueAfterDeltaFail`. -/
def isFullValue : Request → Bool
  | fullValueAfterDeltaFail => true
  | _ => false

/-- The size of a bulk request. -/
def bulkSize : Request → Option (BitVec 64)
  | putAll size | removeAll size => some size
  | _ => none

end Request

namespace Threads

/-- No thread has made a request. -/
def init {T : Type} : Threads T := ⟨0, ∅⟩

variable {T : Type} [DecidableEq T]

/-- The thread-local object of `t`, which is made when `t` first uses it. -/
def eventIdTSS (s : Threads T) (t : T) : EventIdTSS × Threads T :=
  match s.tss.lookup t with
  | some e => (e, s)
  | none =>
    let e : EventIdTSS := ⟨s.eidThrId + 1, 0⟩
    (e, ⟨s.eidThrId + 1, s.tss.insert t e⟩)

/-- `TcrMessage::writeEventIdPart` on the thread `t`: the id that is written. -/
def writeEventIdPart (s : Threads T) (t : T) (reserveSize : BitVec 32)
    (fullValueAfterDeltaFail : Bool) : EventId × Threads T :=
  let e := s.eventIdTSS t
  let r := EventId.new e.1 reserveSize fullValueAfterDeltaFail
  (r.1, { e.2 with tss := e.2.tss.insert t r.2 })

end Threads

/-- A request that was made: its thread, the id it wrote, and the sequence number of the thread
before and after it. -/
structure Written (T : Type) where
  thread : T
  request : Request
  id : EventId
  before : BitVec 64
  after : BitVec 64

/-- The threads and the requests they have made so far. -/
structure History (T : Type) where
  threads : Threads T
  log : List (Written T)

/-- The history with one more request, of the thread `a.1`. -/
def History.step {T : Type} [DecidableEq T] (h : History T) (a : T × Request) : History T :=
  let r := h.threads.writeEventIdPart a.1 a.2.reserveSize a.2.isFullValue
  { threads := r.2
    log := h.log ++ [{
      thread := a.1
      request := a.2
      id := r.1
      before := (h.threads.eventIdTSS a.1).1.eidSeqTSS
      after := (r.2.eventIdTSS a.1).1.eidSeqTSS }] }

/-- Before the first request. -/
def History.init {T : Type} : History T := ⟨Threads.init, []⟩

end GeodeNative.Events

import Mathlib

/-!
# The entries in the order of their eviction

The model of the template class `LRUList<TEntry, TCreateEntry>` (`LRUList.cpp`). The list is a
queue with a second chance: an entry that was used recently goes from the head to the tail once,
and loses its mark. An entry that is evicted is dropped when it comes to the head. The last node is
never taken off the list.

The bits are properties of the entries and not of the nodes. Two nodes can have the same entry, and
then they share its bits.
-/

set_option autoImplicit false

namespace GeodeNative.Cache

/-- The two bits, and the pointer that the persistence manager keeps. -/
structure LRUEntryProperties (P : Type) where
  recentlyUsed : Bool := false
  evicted : Bool := false
  persistenceInfo : Option P := none

/-- An `LRUList`: the entry of the head node, the entries of the nodes behind it, and the properties
of the entries. The list always has a head node. -/
structure LRUList (E P : Type) where
  headNode : E
  nextNodes : List E
  properties : E → LRUEntryProperties P

namespace LRUList

variable {E P : Type}

/-- The entries of the nodes, from head to tail. -/
def nodes (l : LRUList E P) : List E := l.headNode :: l.nextNodes

section
variable [DecidableEq E]

/-- The list after the properties of an entry changed. -/
def modify (l : LRUList E P) (entry : E) (f : LRUEntryProperties P → LRUEntryProperties P) :
    LRUList E P :=
  { l with properties := Function.update l.properties entry (f (l.properties entry)) }

def setRecentlyUsed (l : LRUList E P) (entry : E) : LRUList E P :=
  l.modify entry fun p => { p with recentlyUsed := true }

def clearRecentlyUsed (l : LRUList E P) (entry : E) : LRUList E P :=
  l.modify entry fun p => { p with recentlyUsed := false }

def setEvicted (l : LRUList E P) (entry : E) : LRUList E P :=
  l.modify entry fun p => { p with evicted := true }

def clearEvicted (l : LRUList E P) (entry : E) : LRUList E P :=
  l.modify entry fun p => { p with evicted := false }

def setPersistenceInfo (l : LRUList E P) (entry : E) (persistenceInfo : Option P) : LRUList E P :=
  l.modify entry fun p => { p with persistenceInfo := persistenceInfo }

/-- The constructor, with the entry of the first node, which counts as evicted. -/
def new (headEntry : E) : LRUList E P :=
  LRUList.setEvicted { headNode := headEntry, nextNodes := [], properties := fun _ => {} } headEntry

end

/-- `appendEntry`, and `appendNode` of a node with this entry. -/
def appendEntry (l : LRUList E P) (entry : E) : LRUList E P :=
  { l with nextNodes := l.nextNodes ++ [entry] }

section
variable [DecidableEq E]

/-- The entry of the head node, if any, with `isLast`. -/
def getHeadNode (l : LRUList E P) : (Option E × Bool) × LRUList E P :=
  match l.nextNodes with
  | [] =>
    if (l.properties l.headNode).evicted then ((none, true), l)
    else ((some l.headNode, true), l.setEvicted l.headNode)
  | nextNode :: rest =>
    ((some l.headNode, false), { l with headNode := nextNode, nextNodes := rest })

/-- The loop of `getLRUEntry`, with a bound on its rounds. -/
def findLRUEntry : Nat → LRUList E P → Option E × LRUList E P
  | 0, l => (none, l)
  | rounds + 1, l =>
    match l.getHeadNode with
    | ((none, _), l) => (none, l)
    | ((some aNode, true), l) => (some aNode, l)
    | ((some aNode, false), l) =>
      if (l.properties aNode).evicted then findLRUEntry rounds l
      else if (l.properties aNode).recentlyUsed then
        findLRUEntry rounds ((l.clearRecentlyUsed aNode).appendEntry aNode)
      else (some aNode, l)

/-- A round drops a node, or takes the mark of an entry away; so the loop ends within
two rounds for each node. -/
def getLRUEntry (l : LRUList E P) : Option E × LRUList E P :=
  l.findLRUEntry (2 * l.nodes.length)

end

end LRUList

end GeodeNative.Cache

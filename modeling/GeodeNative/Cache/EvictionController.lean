import Mathlib

/-!
# Evictions for the heap limit

The model of `processHeapInfo`. The regions report by how many bytes they grow or shrink; when the
heap is over its limit, a percentage of the entries is evicted. `pendingEvictions` is the local
variable of `svc`, and `orders` are the percentages that were given to `orderEvictions`. The
numbers are `Int` with the wrap of the types that they have in the source.
-/

set_option autoImplicit false

namespace GeodeNative.Cache

def int32 (x : Int) : Int := x.bmod (2 ^ 32)

def int64 (x : Int) : Int := x.bmod (2 ^ 64)

structure EvictionController where
  maxHeapSize : Int
  heapSizeDelta : Int
  currentHeapSize : Int
  pendingEvictions : Int
  orders : List Int
  deriving DecidableEq, Repr

namespace EvictionController

/-- A new controller, with the limit in bytes. -/
def new (maxHeapSize heapSizeDelta : Int) : EvictionController :=
  ⟨maxHeapSize, heapSizeDelta, 0, 0, []⟩

variable (c : EvictionController)

/-- The percentage by which the size is over the limit, rounded up, and the delta. -/
def evictionPercentage (sizeToCompare : Int) : Int :=
  let sizeOverflow := sizeToCompare - c.maxHeapSize
  let scaled := int64 (sizeOverflow * 100)
  let fractionalOverflow := if scaled.tmod c.maxHeapSize > 0 then 1 else 0
  let percentage := int32 (int32 (scaled.tdiv c.maxHeapSize) + fractionalOverflow)
  int32 (percentage + c.heapSizeDelta)

def bytesToEvict (sizeToCompare : Int) : Int :=
  int32 ((int64 (sizeToCompare * c.evictionPercentage sizeToCompare)).tdiv 100)

def processHeapInfo (readInfo : Int) : EvictionController :=
  let c := { c with currentHeapSize := int64 (c.currentHeapSize + readInfo) }
  if readInfo < 0 ∧ c.pendingEvictions > 0 then
    -- the bytes of an eviction that was ordered
    { c with pendingEvictions := max (int64 (c.pendingEvictions + readInfo)) 0 }
  else
    let sizeToCompare := int64 (c.currentHeapSize - c.pendingEvictions)
    if sizeToCompare > c.maxHeapSize then
      { c with
        pendingEvictions := int64 (c.pendingEvictions + c.bytesToEvict sizeToCompare)
        -- the percentage is cut to 100 after it was used
        orders := c.orders ++ [min (c.evictionPercentage sizeToCompare) 100] }
    else c

end EvictionController

end GeodeNative.Cache

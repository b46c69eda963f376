import GeodeNative.Cache.EvictionController
import GeodeNative.Lib.Run

/-!
# The pending evictions and the heap

A report over the limit adds `bytesToEvict` to the pending evictions, which keep the heap from
being compared with its limit until they are done. The bytes are computed before the percentage is
cut to 100, and they are narrowed to 32 bits. So they can be more than the heap, or negative.

`OrdersPart` is a condition on the sizes alone. The size that is compared with the limit is over it
by so little that the percentage, with the delta, is at most 100, and the bytes are a 32-bit
number. Then the variables of the source do not wrap, and the pending evictions stay bytes of the
heap along every run (`pendingEvictions_fit`).
-/

set_option autoImplicit false

namespace GeodeNative.Cache.EvictionController

open Lib

section
variable (c : EvictionController) (readInfo : Int)

/-- The pending evictions are bytes of the heap. -/
def PendingFits : Prop :=
  0 ≤ c.pendingEvictions ∧ c.pendingEvictions ≤ c.currentHeapSize

/-- The heap has up to 2^50 bytes. -/
def HeapInRange (heapSize : Int) : Prop := 0 ≤ heapSize ∧ heapSize ≤ 2 ^ 50

/-- The report leaves a heap of up to 2^50 bytes. -/
def StaysInRange : Prop := HeapInRange (c.currentHeapSize + readInfo)

/-- The size that is compared with the limit after a report. -/
def compared : Int := c.currentHeapSize + readInfo - c.pendingEvictions

/-- The report orders evictions. -/
def Orders : Prop :=
  ¬(readInfo < 0 ∧ c.pendingEvictions > 0) ∧ c.compared readInfo > c.maxHeapSize

/-- The percentage of the limit by which a size is over it, rounded up, and the delta. It is a
number without a bound, where the source has 32 bits. -/
def percentOver (size : Int) : Int :=
  ((size - c.maxHeapSize) * 100 + c.maxHeapSize - 1) / c.maxHeapSize + c.heapSizeDelta

/-- A report that orders evictions is over the limit by so little that at most 100 percent are to be
evicted, and these are less than 2^31 bytes. -/
def OrdersPart : Prop :=
  Orders c readInfo → c.percentOver (c.compared readInfo) ≤ 100 ∧
    c.compared readInfo * c.percentOver (c.compared readInfo) < 100 * 2 ^ 31

/-- The limit is positive and the delta not negative, the heap is in range, and the pending
evictions fit. -/
structure Sound : Prop where
  limit : 0 < c.maxHeapSize
  delta : 0 ≤ c.heapSizeDelta
  heap : HeapInRange c.currentHeapSize
  pending : PendingFits c

end

/-- A 64-bit variable holds a number in its range. -/
theorem int64_eq {x : Int} (h : -2 ^ 63 ≤ x) (h' : x < 2 ^ 63) : int64 x = x :=
  Int.bmod_eq_of_le (by omega) (by omega)

/-- A 32-bit variable holds a number in its range. -/
theorem int32_eq {x : Int} (h : -2 ^ 31 ≤ x) (h' : x < 2 ^ 31) : int32 x = x :=
  Int.bmod_eq_of_le (by omega) (by omega)

/-- The quotient and one more when there is a remainder: this is the quotient rounded up. -/
theorem ediv_add_fraction {x m : Int} (hm : 0 < m) :
    x / m + (if x % m > 0 then 1 else 0) = (x + m - 1) / m := by
  have hdiv := Int.mul_ediv_add_emod x m
  have hlow := Int.emod_nonneg x hm.ne'
  have hhigh := Int.emod_lt_of_pos x hm
  have hsplit : x + m - 1 = (x % m + m - 1) + m * (x / m) := by omega
  rw [hsplit, Int.add_mul_ediv_left _ _ hm.ne', add_comm (x / m)]
  congr 1
  split
  · -- the remainder with the limit less one is at least one time the limit, and less than two times
    next hpos =>
      have hrest : x % m + m - 1 = (x % m - 1) + m * 1 := by omega
      rw [hrest, Int.add_mul_ediv_left _ _ hm.ne', Int.ediv_eq_zero_of_lt (by omega) (by omega)]
      rfl
  · exact (Int.ediv_eq_zero_of_lt (by omega) (by omega)).symm

variable {c : EvictionController} {readInfo : Int}

/-- A percentage of at most 100 is computed without a wrap. -/
theorem evictionPercentage_eq (hlimit : 0 < c.maxHeapSize) (hdelta : 0 ≤ c.heapSizeDelta)
    {size : Int} (hover : c.maxHeapSize < size) (hsize : size ≤ 2 ^ 50)
    (hpercent : c.percentOver size ≤ 100) : c.evictionPercentage size = c.percentOver size := by
  have hscaled : int64 ((size - c.maxHeapSize) * 100) = (size - c.maxHeapSize) * 100 :=
    int64_eq (by omega) (by omega)
  have hpos : 0 ≤ (size - c.maxHeapSize) * 100 := by omega
  have hround := ediv_add_fraction (x := (size - c.maxHeapSize) * 100) hlimit
  have hquotient : 0 ≤ (size - c.maxHeapSize) * 100 / c.maxHeapSize :=
    Int.ediv_nonneg hpos hlimit.le
  unfold evictionPercentage
  unfold percentOver at hpercent ⊢
  simp only [hscaled, Int.tmod_eq_emod_of_nonneg hpos, Int.tdiv_eq_ediv_of_nonneg hpos]
  have hnarrow : int32 ((size - c.maxHeapSize) * 100 / c.maxHeapSize) =
      (size - c.maxHeapSize) * 100 / c.maxHeapSize := int32_eq (by omega) (by omega)
  rw [hnarrow, hround, int32_eq (x := (_ + _ - 1) / _) (by omega) (by omega)]
  exact int32_eq (by omega) (by omega)

/-- The bytes of a report that orders a part of the heap: they are that part of the compared
size. -/
theorem bytesToEvict_le (hc : Sound c) (h : StaysInRange c readInfo)
    (hpart : OrdersPart c readInfo) (horders : Orders c readInfo) :
    0 ≤ c.bytesToEvict (c.compared readInfo) ∧
      c.bytesToEvict (c.compared readInfo) ≤ c.compared readInfo := by
  obtain ⟨hpercent, hnarrow⟩ := hpart horders
  obtain ⟨hlow, hhigh⟩ := h
  obtain ⟨hlimit, hdelta, -, hpos, hle⟩ := hc
  have hover := horders.2
  have hcompared : c.compared readInfo = c.currentHeapSize + readInfo - c.pendingEvictions := rfl
  have hnonneg : 0 ≤ c.percentOver (c.compared readInfo) :=
    Int.add_nonneg (Int.ediv_nonneg (by omega) hlimit.le) hdelta
  have hproduct : 0 ≤ c.compared readInfo * c.percentOver (c.compared readInfo) :=
    Int.mul_nonneg (by omega) hnonneg
  have hcut : c.compared readInfo * c.percentOver (c.compared readInfo) ≤
      c.compared readInfo * 100 :=
    Int.mul_le_mul_of_nonneg_left hpercent (by omega)
  have hbytes : c.bytesToEvict (c.compared readInfo) =
      c.compared readInfo * c.percentOver (c.compared readInfo) / 100 := by
    rw [bytesToEvict, evictionPercentage_eq hlimit hdelta hover (by omega) hpercent,
      int64_eq (by omega) (by omega), Int.tdiv_eq_ediv_of_nonneg hproduct]
    exact int32_eq (by omega) (by omega)
  omega

/-- What a report does to the heap size and the pending evictions, when the heap stays in range: the
64-bit variables do not wrap. -/
theorem processHeapInfo_eq (hc : Sound c) (h : StaysInRange c readInfo) :
    (c.processHeapInfo readInfo).currentHeapSize = c.currentHeapSize + readInfo ∧
      (c.processHeapInfo readInfo).pendingEvictions =
        if readInfo < 0 ∧ c.pendingEvictions > 0 then max (c.pendingEvictions + readInfo) 0
        else if c.compared readInfo > c.maxHeapSize then
          c.pendingEvictions + c.bytesToEvict (c.compared readInfo)
        else c.pendingEvictions := by
  obtain ⟨hlow, hhigh⟩ := h
  obtain ⟨-, -, ⟨-, hbound⟩, hpos, hle⟩ := hc
  have hleast : -2 ^ 31 ≤ c.bytesToEvict (c.compared readInfo) := Int.le_bmod (by decide)
  have hmost : c.bytesToEvict (c.compared readInfo) < 2 ^ 31 := Int.bmod_lt (by decide)
  have hheap' : int64 (c.currentHeapSize + readInfo) = c.currentHeapSize + readInfo :=
    int64_eq (by omega) (by omega)
  have habsorbed : int64 (c.pendingEvictions + readInfo) = c.pendingEvictions + readInfo :=
    int64_eq (by omega) (by omega)
  have hsize : int64 (c.currentHeapSize + readInfo - c.pendingEvictions) = c.compared readInfo :=
    int64_eq (by omega) (by omega)
  have hordered : int64 (c.pendingEvictions + c.bytesToEvict (c.compared readInfo)) =
      c.pendingEvictions + c.bytesToEvict (c.compared readInfo) := int64_eq (by omega) (by omega)
  unfold processHeapInfo
  simp only [hheap', hsize]
  split
  · exact ⟨rfl, congrArg (max · 0) habsorbed⟩
  · split
    · exact ⟨rfl, hordered⟩
    · exact ⟨rfl, rfl⟩

/-- A report changes neither the limit nor the delta. -/
theorem processHeapInfo_limits (c : EvictionController) (readInfo : Int) :
    (c.processHeapInfo readInfo).maxHeapSize = c.maxHeapSize ∧
      (c.processHeapInfo readInfo).heapSizeDelta = c.heapSizeDelta := by
  unfold processHeapInfo
  dsimp only
  split
  · exact ⟨rfl, rfl⟩
  · split <;> exact ⟨rfl, rfl⟩

/-- One report that orders a part of the heap at most keeps the controller sound. -/
theorem sound_processHeapInfo (hc : Sound c) (h : StaysInRange c readInfo)
    (hpart : OrdersPart c readInfo) : Sound (c.processHeapInfo readInfo) := by
  obtain ⟨hlimit, hdelta⟩ := processHeapInfo_limits c readInfo
  obtain ⟨hcurrent, hpending⟩ := processHeapInfo_eq hc h
  refine ⟨hlimit ▸ hc.limit, hdelta ▸ hc.delta, hcurrent ▸ h, ?_⟩
  have hbytes := bytesToEvict_le hc h hpart
  obtain ⟨hlow, hhigh⟩ := h
  obtain ⟨hpos, hle⟩ := hc.pending
  have hcompared : c.compared readInfo = c.currentHeapSize + readInfo - c.pendingEvictions := rfl
  rw [PendingFits, hcurrent, hpending]
  split_ifs with habsorbed hover
  · omega
  · have horders := hbytes ⟨habsorbed, hover⟩
    omega
  · omega

/-- The pending evictions along a run, for every limit, every delta and all reports that keep the
heap in range. They are bytes of the heap after every report, as long as each report over the limit
is over it by so little that at most 100 percent, and less than 2^31 bytes, are to be evicted. -/
theorem pendingEvictions_fit (maxHeapSize heapSizeDelta : Int) (hlimit : 0 < maxHeapSize)
    (hdelta : 0 ≤ heapSizeDelta) (reports : List Int)
    (hrange : Along processHeapInfo StaysInRange (new maxHeapSize heapSizeDelta) reports)
    (hpart : Along processHeapInfo OrdersPart (new maxHeapSize heapSizeDelta) reports) :
    ∀ pre, pre <+: reports →
      PendingFits (run processHeapInfo (new maxHeapSize heapSizeDelta) pre) := by
  have hlarge : (0 : Int) ≤ 2 ^ 50 := by decide
  have hnew : Sound (new maxHeapSize heapSizeDelta) :=
    ⟨hlimit, hdelta, ⟨Int.le_refl 0, hlarge⟩, Int.le_refl 0, Int.le_refl 0⟩
  rintro pre ⟨post, rfl⟩
  rw [along_append] at hrange hpart
  exact (run_invariant (fun c readInfo hc h => sound_processHeapInfo hc h.1 h.2) hnew
    (hrange.1.and hpart.1)).pending

/-- A limit of 100 bytes and a delta of 10 percent. Of 105 bytes 15 percent are evicted, which is
15 bytes. The next report is of 5 of these, and the last one is over the limit again: of the other
120 bytes 30 percent are evicted. -/
theorem pendingEvictions_fit_evicted :
    (run processHeapInfo (new 100 10) [105, -5, 30]).pendingEvictions = 46 ∧
      PendingFits (run processHeapInfo (new 100 10) [105, -5, 30]) := by
  refine ⟨by decide, pendingEvictions_fit 100 10 (by decide) (by decide) [105, -5, 30] ?_ ?_ _
    List.prefix_rfl⟩
  · exact ⟨⟨by decide, by decide⟩, ⟨by decide, by decide⟩, ⟨by decide, by decide⟩, trivial⟩
  · exact ⟨fun _ => by decide, fun horders => absurd horders.1 (by decide), fun _ => by decide,
      trivial⟩

/-- A limit of 1 MB. The first report is of 10 MB, which is 900 percent too much, and 90 MB are
pending afterwards. -/
theorem pendingEvictions_exceed :
    ¬PendingFits (run processHeapInfo (new (1024 * 1024) 0) [10 * 1024 * 1024]) := by
  intro h
  exact absurd h.2 (by decide)

end GeodeNative.Cache.EvictionController

import GeodeNative.Proofs.Statistics.Instances

/-!
# The times of the samples

A sample is archived with the time since the sample before it, in milliseconds, and a reader sums
these differences up from the start. The writer rounds each difference down, but takes it from the
exact time of the sample before. So the nanoseconds that the rounding drops are never made up for,
and the times of the reader stay near the exact ones as long as all of these together are less than
a millisecond (`keepsTime_iff`).
-/

set_option autoImplicit false

namespace GeodeNative.Statistics

open Lib Archive StatDataOutput

/-! ## The differences in an archive -/

section
variable {P T : Type} [DecidableEq P] [DecidableEq T] (types : T → StatisticsType)

/-- The samples of a run write these differences, each of them behind the byte of the token and in
front of the values. -/
def WritesDeltas (st : Archive P T) : List (ArchiveOp P T) → List (BitVec 32) → Prop
  | [], deltas => deltas = []
  | .sample timeStamp order :: ops, deltas => ∃ delta rest values, deltas = delta :: rest ∧
      (st.sample types order timeStamp).out = (st.sampleResources types).out ++
        (writeByte 0 ++ writeTimeStamp delta ++ values ++ writeResourceInst (-1)) ∧
      WritesDeltas (st.sample types order timeStamp) ops rest
  | op :: ops, deltas => WritesDeltas (op.step types st) ops deltas

/-- Along every run the samples write the differences of their times, from the start time on. -/
theorem writesDeltas_stampDeltas (st : Archive P T) (ops : List (ArchiveOp P T)) :
    WritesDeltas types st ops (stampDeltas st.previousTimeStamp (ArchiveOp.times ops)) := by
  induction ops generalizing st with
  | nil => rfl
  | cons op ops ih =>
    cases op with
    | sample timeStamp order =>
      refine ⟨_, _, (st.sampleResources types).writeSamples
        (order (st.sampleResources types).resourceInstMap).1, rfl, ?_, ih _⟩
      rw [← previousTimeStamp_sampleResources types]
      rfl
    | _ => exact ih _

end

/-! ## The times of a reader -/

/-- The times of a reader, which adds the differences to the start time. -/
def archivedTimes (time : Int) : List (BitVec 32) → List Int
  | [] => []
  | delta :: rest =>
    let time := time + 1000000 * delta.toInt
    time :: archivedTimes time rest

/-- The differences are read as they were written, and every sample has a time that differs from the
actual one by less than a millisecond. -/
structure KeepsTime (start : Int) (times : List Int) : Prop where
  read : ∀ delta ∈ stampDeltas start times, Reads readTimeStamp (writeTimeStamp delta) delta
  near : List.Forall₂ (fun actual archived => |actual - archived| < 1000000) times
    (archivedTimes start (stampDeltas start times))

/-- Times of a steady clock. No gap has 2^31 milliseconds. -/
def Steady (previous : Int) : List Int → Prop
  | [] => True
  | time :: rest => 0 ≤ time - previous ∧ time - previous < 2 ^ 31 * 1000000 ∧ Steady time rest

/-- What the rounding drops, in nanoseconds. -/
def dropped (previous : Int) : List Int → Int
  | [] => 0
  | time :: rest => (time - previous) % 1000000 + dropped time rest

theorem dropped_nonneg (previous : Int) (times : List Int) : 0 ≤ dropped previous times := by
  induction times generalizing previous with
  | nil => exact Int.le_refl 0
  | cons time rest ih =>
    have hrest := ih time
    rw [dropped]
    omega

/-- A gap of less than 2^31 milliseconds is rounded down. -/
theorem toInt_stampDelta {previous time : Int} (hle : 0 ≤ time - previous)
    (hlt : time - previous < 2 ^ 31 * 1000000) :
    (stampDelta previous time).toInt = (time - previous) / 1000000 := by
  rw [stampDelta, BitVec.toInt_ofInt, Int.tdiv_eq_ediv_of_nonneg hle]
  exact Int.bmod_eq_of_le (by omega) (by omega)

theorem readTimeStamp_nonneg {delta : BitVec 32} (h : 0 ≤ delta.toInt) :
    Reads readTimeStamp (writeTimeStamp delta) delta := by
  have hnat : delta.toInt = delta.toNat := by
    have hcond := BitVec.toInt_eq_toNat_cond delta
    split at hcond <;> omega
  by_cases hlong : delta.toInt > 65534
  · have hread := readTimeStamp_write (.inl hlong)
    rwa [if_pos hlong] at hread
  · have hshort : delta.setWidth 16 ≠ 65535 := by
      intro heq
      have hmod := congrArg BitVec.toNat heq
      simp at hmod
      omega
    have hback : (delta.setWidth 16).setWidth 32 = delta := by
      apply BitVec.eq_of_toNat_eq
      rw [BitVec.toNat_setWidth, BitVec.toNat_setWidth]
      omega
    have hread := readTimeStamp_write (.inr hshort)
    rwa [if_neg hlong, hback] at hread

variable {times : List Int}

theorem readTimeStamp_steady {start : Int} (h : Steady start times) :
    ∀ delta ∈ stampDeltas start times, Reads readTimeStamp (writeTimeStamp delta) delta := by
  induction times generalizing start with
  | nil => exact fun delta hmem => nomatch hmem
  | cons time rest ih =>
    obtain ⟨hle, hlt, hrest⟩ := h
    intro delta hmem
    rcases List.mem_cons.mp hmem with rfl | hmem
    · apply readTimeStamp_nonneg
      rw [toInt_stampDelta hle hlt]
      omega
    · exact ih hrest delta hmem

/-- The reader is behind by what was dropped before, and falls further behind with every sample. -/
theorem near_iff {previous time : Int} (h : Steady previous times) (hbehind : time ≤ previous) :
    List.Forall₂ (fun actual archived => |actual - archived| < 1000000) times
        (archivedTimes time (stampDeltas previous times)) ↔
      times = [] ∨ previous - time + dropped previous times < 1000000 := by
  induction times generalizing previous time with
  | nil => simp [stampDeltas, archivedTimes]
  | cons t rest ih =>
    obtain ⟨hle, hlt, hrest⟩ := h
    have hdelta := toInt_stampDelta hle hlt
    have hnonneg := dropped_nonneg t rest
    rw [stampDeltas, archivedTimes, List.forall₂_cons, hdelta, ih hrest (by omega), dropped,
      abs_of_nonneg (by omega)]
    constructor
    · rintro ⟨hnear, rfl | hlater⟩
      · rw [dropped]
        right
        omega
      · right
        omega
    · rintro (hnil | hsum)
      · cases hnil
      · exact ⟨by omega, Or.inr (by omega)⟩

/-- The times do not drift exactly when all that the rounding drops is less than a millisecond. -/
theorem keepsTime_iff {start : Int} (h : Steady start times) :
    KeepsTime start times ↔ dropped start times < 1000000 := by
  have hnear := near_iff h (Int.le_refl start)
  rw [Int.sub_self, Int.zero_add] at hnear
  constructor
  · intro hkeeps
    rcases hnear.mp hkeeps.near with rfl | hlt
    · rw [dropped]
      decide
    · exact hlt
  · intro hlt
    exact ⟨readTimeStamp_steady h, hnear.mpr (Or.inr hlt)⟩

/-- Two samples, after 1.4 and after another 2.5 milliseconds. -/
theorem keepsTime_two : KeepsTime 0 [1400000, 3900000] := by
  have hsteady : Steady 0 [1400000, 3900000] := by simp [Steady]
  exact (keepsTime_iff hsteady).mpr (by decide)

/-- Two samples at a distance of 1.6 milliseconds each: the reader has the second one at 2
milliseconds instead of 3.2. -/
theorem not_keepsTime_two : Steady 0 [1600000, 3200000] ∧ ¬KeepsTime 0 [1600000, 3200000] := by
  refine ⟨by simp [Steady], ?_⟩
  rintro ⟨-, hnear⟩
  have htimes : archivedTimes 0 (stampDeltas 0 [1600000, 3200000]) = [1000000, 2000000] := by decide
  rw [htimes] at hnear
  simp at hnear

end GeodeNative.Statistics

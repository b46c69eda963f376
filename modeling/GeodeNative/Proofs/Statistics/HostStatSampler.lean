import GeodeNative.Lib.Run
import GeodeNative.Statistics.HostStatSampler

/-!
# What is in the archives, and what is deleted

`doSample` rolls the archive between the sample and the flush, and the sample is in the buffer of
the writer that is deleted then. So the archives have exactly the samples of the calls that did not
roll (`exists_doSample_run`), and all of them when no call did (`keepsSamples_iff`).

`checkDiskLimit` stops when the space that cannot be freed is within the limit (`stops_iff`): the
current archive and the files that cannot be deleted. Otherwise the loop goes on past the last file.
-/

set_option autoImplicit false

namespace GeodeNative.Statistics.HostStatSampler

open Lib

/-- The samples in the archives. -/
def written (s : HostStatSampler) : List Nat :=
  (s.archives ++ [s.archiver.file]).flatten.filterMap (·.sample)

/-- Every sample is in exactly one of the archives, once. -/
def KeepsSamples (s : HostStatSampler) : Prop := ∀ i < s.samples, (written s).count i = 1

/-- The call rolls the archive. -/
def Rolls (limit : Int) (s : HostStatSampler) (call : SampleCall) : Prop :=
  limit ≠ 0 ∧ limit - call.size < s.archiver.bytesWrittenToFile ∧ call.archivefilename ≠ ""

instance (limit : Int) (s : HostStatSampler) (call : SampleCall) : Decidable (Rolls limit s call) :=
  inferInstanceAs (Decidable (_ ∧ _))

/-- One call writes its sample when it does not roll. No sample is left in the buffer. -/
theorem written_doSample (limit : Int) {s : HostStatSampler} (call : SampleCall)
    (hbuffer : s.archiver.dataBuffer.filterMap (·.sample) = []) :
    (doSample limit s call).samples = s.samples + 1 ∧
      (doSample limit s call).archiver.dataBuffer = [] ∧
      written (doSample limit s call) =
        written s ++ if Rolls limit s call then [] else [s.samples] := by
  by_cases hlimit : limit ≠ 0 ∧ limit - call.size < s.archiver.bytesWrittenToFile
  · by_cases hname : call.archivefilename = ""
    · simp [doSample, changeArchive, Rolls, written, StatArchiveWriter.sample,
        StatArchiveWriter.flush, hlimit, hname, hbuffer]
    · simp [doSample, changeArchive, Rolls, written, StatArchiveWriter.sample,
        StatArchiveWriter.create, StatArchiveWriter.flush, hlimit, hname]
  · have hrolls : ¬ Rolls limit s call := fun h => hlimit ⟨h.1, h.2.1⟩
    simp [doSample, hrolls, written, StatArchiveWriter.sample, StatArchiveWriter.flush, hlimit,
      hbuffer]

/-- The samples that a run adds are in the archives once, as far as their calls did not roll. -/
theorem exists_doSample_run (limit : Int) (calls : List SampleCall) {s : HostStatSampler}
    (hbuffer : s.archiver.dataBuffer.filterMap (·.sample) = []) :
    ∃ later, written (run (doSample limit) s calls) = written s ++ later ∧
      (run (doSample limit) s calls).samples = s.samples + calls.length ∧
      (∀ i ∈ later, s.samples ≤ i) ∧
      ((∀ i < calls.length, later.count (s.samples + i) = 1) ↔
        Along (doSample limit) (fun s call => ¬ Rolls limit s call) s calls) := by
  induction calls generalizing s with
  | nil => exact ⟨[], by simp, rfl, by simp, by simp⟩
  | cons call rest ih =>
    obtain ⟨hsamples, hempty, hwritten⟩ := written_doSample limit call hbuffer
    obtain ⟨later, hlater, hcount, hge, hiff⟩ := ih (s := doSample limit s call) (by simp [hempty])
    -- The later calls have greater numbers, so the sample of this call is written here or nowhere.
    have hnot : later.count s.samples = 0 :=
      List.count_eq_zero.mpr fun hmem => by
        have := hge _ hmem
        omega
    refine ⟨(if Rolls limit s call then [] else [s.samples]) ++ later, ?_, ?_, ?_, ?_⟩
    · rw [run_cons, hlater, hwritten, List.append_assoc]
    · rw [run_cons, hcount, hsamples, List.length_cons]
      omega
    · intro i hi
      rcases List.mem_append.mp hi with h | h
      · split at h
        · exact absurd h List.not_mem_nil
        · exact Nat.le_of_eq (List.mem_singleton.mp h).symm
      · have := hge i h
        omega
    · rw [along_cons, ← hiff, hsamples]
      have hown : ∀ i, (if Rolls limit s call then [] else [s.samples]).count
          (s.samples + 1 + i) = 0 := by
        intro i
        split
        · rfl
        · exact List.count_eq_zero.mpr (by simp; omega)
      simp only [List.length_cons, Nat.forall_lt_succ_left', Nat.add_zero, List.count_append, hnot,
        hown, Nat.zero_add, ← Nat.add_assoc, Nat.add_right_comm _ _ 1]
      refine and_congr ?_ Iff.rfl
      split <;> simp [*]

/-- Every sample of every sequence of calls is in exactly one archive if and only if no call rolls
the archive. -/
theorem keepsSamples_iff (limit : Int) (header : Nat) (calls : List SampleCall) :
    KeepsSamples (run (doSample limit) (start header) calls) ↔
      Along (doSample limit) (fun s call => ¬ Rolls limit s call) (start header) calls := by
  obtain ⟨later, hwritten, hsamples, -, hiff⟩ :=
    exists_doSample_run limit calls (s := start header) rfl
  rw [← hiff, KeepsSamples, hsamples, hwritten]
  simp [start, written, StatArchiveWriter.create]

/-- With a limit of 1 MiB, the second of two samples of 600,000 bytes rolls the archive and is
lost. -/
theorem not_keepsSamples_rolled :
    ¬ KeepsSamples (run (doSample 1048576) (start 50)
      [⟨"stats.gfs", 600000, 50⟩, ⟨"stats.gfs", 600000, 50⟩]) :=
  fun h => absurd (h 1 (by decide)) (by decide)

/-! ## The disk limit -/

/-- The bytes of the files that can be deleted. -/
def freed (unlink : Nat → Bool) : Nat → List (String × Nat) → Int
  | _, [] => 0
  | i, (_, fileSize) :: rest => (if unlink i then fileSize else 0) + freed unlink (i + 1) rest

/-- The loop tries the first `n` files in their order, and stops as soon as the used space is
within the limit or there is no other file. -/
def Stops (limit : Int) (unlink : Nat → Bool) (i : Nat) (spaceUsed : Int)
    (files : List (String × Nat)) (result : Cleanup) : Prop :=
  ∃ n ≤ files.length,
    result = ⟨(files.take n).map (·.1), some (spaceUsed - freed unlink i (files.take n))⟩ ∧
    (∀ m < n, limit < spaceUsed - freed unlink i (files.take m)) ∧
    (spaceUsed - freed unlink i (files.take n) ≤ limit ∨ n = files.length)

theorem freed_nonneg (unlink : Nat → Bool) (i : Nat) (files : List (String × Nat)) :
    0 ≤ freed unlink i files := by
  induction files generalizing i with
  | nil => exact Int.le_refl 0
  | cons file rest ih =>
    have hrest := ih (i + 1)
    rw [freed]
    split <;> omega

theorem deleteFiles_stops_iff (limit : Int) (unlink : Nat → Bool) (i : Nat) (spaceUsed : Int)
    (files : List (String × Nat)) :
    Stops limit unlink i spaceUsed files (deleteFiles limit unlink i spaceUsed files) ↔
      spaceUsed - freed unlink i files ≤ limit := by
  induction files generalizing i spaceUsed with
  | nil => by_cases hover : spaceUsed > limit <;> simp [Stops, deleteFiles, freed, hover]; omega
  | cons file rest ih =>
    obtain ⟨path, fileSize⟩ := file
    by_cases hover : spaceUsed > limit
    · have hfreed : ∀ l, (if unlink i then spaceUsed - fileSize else spaceUsed) -
          freed unlink (i + 1) l = spaceUsed - freed unlink i ((path, fileSize) :: l) := by
        intro l
        rw [freed]
        split <;> omega
      rw [← hfreed, ← ih, deleteFiles, if_pos hover]
      simp only [Stops, hfreed]
      constructor
      -- One file is tried at least, so the loop over the rest tries one file less.
      · rintro ⟨n, hn, hresult, hlt, hend⟩
        cases n with
        | zero => simp [freed] at hend; omega
        | succ n =>
          refine ⟨n, by simpa using hn, ?_, fun m hm => hlt (m + 1) (by omega), by simpa using hend⟩
          simpa [Cleanup.ext_iff] using hresult
      · rintro ⟨n, hn, hresult, hlt, hend⟩
        refine ⟨n + 1, by simpa using hn, by simp [hresult], ?_, by simpa using hend⟩
        intro m hm
        cases m with
        | zero => simpa [freed] using hover
        | succ m => exact hlt m (by omega)
    · have hnonneg := freed_nonneg unlink i ((path, fileSize) :: rest)
      have hle : spaceUsed - freed unlink i ((path, fileSize) :: rest) ≤ limit := by omega
      rw [deleteFiles, if_neg hover]
      refine ⟨fun _ => hle, fun _ => ⟨0, Nat.zero_le _, by simp [freed], by simp, .inl ?_⟩⟩
      simpa [freed] using hover

/-- For every directory, every outcome of the deletions and every limit, `checkDiskLimit` stops as
its loop should if and only if what cannot be deleted needs no more than the limit. -/
theorem stops_iff (limit : Int) (entries : Option (List (String × Nat))) (unlink : Nat → Bool)
    (bytesWritten : Int) :
    Stops limit unlink 0 (usedSpace entries bytesWritten) (fileInfo entries)
        (checkDiskLimit limit entries unlink bytesWritten) ↔
      usedSpace entries bytesWritten - freed unlink 0 (fileInfo entries) ≤ limit :=
  deleteFiles_stops_iff limit unlink 0 _ _

/-- With a limit of 1 MiB, an archive of 2 MiB cannot be deleted, and the loop goes on past it. -/
theorem not_stops_undeleted :
    let entries := some [("stats-1.gfs", 5), ("stats-2.gfs", 2097152)]
    ¬ Stops 1048576 (fun _ => false) 0 (usedSpace entries 100) (fileInfo entries)
      (checkDiskLimit 1048576 entries (fun _ => false) 100) := by
  rintro entries ⟨n, -, hresult, -⟩
  exact absurd (congrArg Cleanup.spaceUsed hresult) (Option.some_ne_none _).symm

end GeodeNative.Statistics.HostStatSampler

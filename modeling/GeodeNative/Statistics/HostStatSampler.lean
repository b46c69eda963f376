import Mathlib

/-!
# The archive files of the sampler

The model of `HostStatSampler::doSample`, `changeArchive` and `checkDiskLimit`
(`statistics/HostStatSampler.cpp`), with the buffer and the file of `StatArchiveWriter`. What is in
them are pieces: the samples, and what the constructor of a writer puts in front. The operations of
`doSample` on files succeed, and the archives that are rolled stay on the disk. Its count of the
used space only decides whether `checkDiskLimit` is called, which has the directory as an argument.
-/

set_option autoImplicit false

namespace GeodeNative.Statistics

/-- Bytes in the order in which they are written. `size` is what `StatDataOutput` counts for them,
and `sample` is the number of the sample. -/
structure Piece where
  sample : Option Nat
  size : Nat

/-- The part of `StatArchiveWriter` that `HostStatSampler` uses, with the contents of its file. -/
structure StatArchiveWriter where
  file : List Piece
  dataBuffer : List Piece
  bytesWrittenToFile : Int
  samplesize : Int

namespace StatArchiveWriter

/-- The constructor, which puts `size` bytes into the buffer. -/
def create (size : Nat) : StatArchiveWriter := ⟨[], [⟨none, size⟩], 0, 0⟩

def sample (w : StatArchiveWriter) (number size : Nat) : StatArchiveWriter :=
  { w with dataBuffer := w.dataBuffer ++ [⟨some number, size⟩], samplesize := size }

def flush (w : StatArchiveWriter) : StatArchiveWriter :=
  { w with
    file := w.file ++ w.dataBuffer
    bytesWrittenToFile := w.bytesWrittenToFile + (w.dataBuffer.map (·.size)).sum
    dataBuffer := [] }

end StatArchiveWriter

/-- `archives` are the files that were rolled, and `samples` were taken so far. -/
structure HostStatSampler where
  archiver : StatArchiveWriter
  archives : List (List Piece)
  samples : Nat

/-- The argument of `doSample`, and the bytes that the sample and a new writer count. -/
structure SampleCall where
  archivefilename : String
  size : Nat
  header : Nat

namespace HostStatSampler

/-- The sampler with its first archive. -/
def start (header : Nat) : HostStatSampler := ⟨.create header, [], 0⟩

/-- `closeFile` does not write the buffer, and the old writer is deleted with it. -/
def changeArchive (s : HostStatSampler) (filename : String) (header : Nat) : HostStatSampler :=
  if filename = "" then s
  else { s with archiver := .create header, archives := s.archives ++ [s.archiver.file] }

def doSample (archiveFileSizeLimit : Int) (s : HostStatSampler) (call : SampleCall) :
    HostStatSampler :=
  let s := { s with
    archiver := s.archiver.sample s.samples call.size
    samples := s.samples + 1 }
  let s :=
    if archiveFileSizeLimit ≠ 0 ∧
        s.archiver.bytesWrittenToFile > archiveFileSizeLimit - s.archiver.samplesize then
      s.changeArchive call.archivefilename call.header
    else s
  { s with archiver := s.archiver.flush }

/-- What `checkDiskLimit` did: the paths that it tried to delete, and `g_spaceUsed` at the end. It
has no end when the loop reads `fileInfo` past its last entry. -/
@[ext]
structure Cleanup where
  attempts : List String
  spaceUsed : Option Int
deriving DecidableEq

/-- The loop over `fileInfo`. `unlink i` says whether the file at index `i` could be deleted. -/
def deleteFiles (archiveDiskSpaceLimit : Int) (unlink : Nat → Bool) :
    Nat → Int → List (String × Nat) → Cleanup
  | _, spaceUsed, [] => ⟨[], if spaceUsed > archiveDiskSpaceLimit then none else some spaceUsed⟩
  | fileIndex, spaceUsed, (path, fileSize) :: rest =>
    if spaceUsed > archiveDiskSpaceLimit then
      let spaceUsed := if unlink fileIndex then spaceUsed - fileSize else spaceUsed
      let r := deleteFiles archiveDiskSpaceLimit unlink (fileIndex + 1) spaceUsed rest
      { r with attempts := path :: r.attempts }
    else ⟨[], some spaceUsed⟩

/-- `fileInfo`, from the sorted entries of the directory. The first entry is left out. -/
def fileInfo (entries : Option (List (String × Nat))) : List (String × Nat) :=
  (entries.getD []).tail

/-- `g_spaceUsed` before the loop. It is zero when the directory could not be read. -/
def usedSpace (entries : Option (List (String × Nat))) (bytesWritten : Int) : Int :=
  if entries.isSome then ((fileInfo entries).map (·.2)).sum + bytesWritten else 0

def checkDiskLimit (archiveDiskSpaceLimit : Int) (entries : Option (List (String × Nat)))
    (unlink : Nat → Bool) (bytesWritten : Int) : Cleanup :=
  deleteFiles archiveDiskSpaceLimit unlink 0 (usedSpace entries bytesWritten) (fileInfo entries)

end HostStatSampler

end GeodeNative.Statistics

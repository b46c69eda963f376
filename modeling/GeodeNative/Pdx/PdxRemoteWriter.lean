import GeodeNative.Pdx.PdxLocalWriter

/-!
# Writing a stream with preserved fields

The model of `PdxRemoteWriter` (`PdxRemoteWriter.cpp`). The writer has a merged type, and the
bytes of the fields that the local type lacks. Before each field of the object, and at the end, it
writes the preserved fields that come next in the merged type.
-/

set_option autoImplicit false

namespace GeodeNative.Pdx

open Lib Serialization

/-- A `PdxRemoteWriter`. The preserved data may be null. -/
structure PdxRemoteWriter where
  localWriter : PdxLocalWriter
  preserveData : Option (List (List Byte))
  preserveDataIdx : Nat
  currentDataIdx : Int
  remoteTolocalMap : List RemoteToLocal

namespace PdxRemoteWriter

/-- The constructor with a type and preserved data. -/
def new (output : DataOutput) (pdxType : PdxType) (preservedData : List (List Byte)) :
    PdxRemoteWriter where
  localWriter := .new output pdxType
  preserveData := some preservedData
  preserveDataIdx := 0
  currentDataIdx := -1
  remoteTolocalMap := pdxType.remoteToLocalFieldMap.getD []

/-- The constructor with a class name only. `initialize` takes the local type of the registry. -/
def newLocal (output : DataOutput) (localPdxType : PdxType) : PdxRemoteWriter where
  localWriter := .new output localPdxType
  preserveData := none
  preserveDataIdx := 0
  currentDataIdx := -1
  remoteTolocalMap := []

/-- The bytes of the next preserved field are written. An index past the end of the vector is
undefined in the source. -/
def writeNextPreserved (w : PdxRemoteWriter) (data : List (List Byte)) : PdxRemoteWriter :=
  let localWriter := match data[w.preserveDataIdx]? with
    | some bytes => w.localWriter.writeRawBytes bytes
    | none => w.localWriter.emit fun o => { o with fault := true }
  { w with
    localWriter := localWriter
    preserveDataIdx := w.preserveDataIdx + 1
    currentDataIdx := w.currentDataIdx + 1 }

/-- The loop of `writePreserveData`, over the rest of the map. -/
def writePreserveLoop (w : PdxRemoteWriter) (data : List (List Byte)) :
    List RemoteToLocal → PdxRemoteWriter
  | [] => w
  | .absentVariable :: map =>
    writePreserveLoop
      (writeNextPreserved { w with localWriter := w.localWriter.addOffset } data) data map
  | .absentFixed :: map => writePreserveLoop (w.writeNextPreserved data) data map
  | .present :: _ => w

def writePreserveData (w : PdxRemoteWriter) : PdxRemoteWriter :=
  let w := { w with currentDataIdx := w.currentDataIdx + 1 }
  match w.preserveData with
  | none => w
  | some data => w.writePreserveLoop data (w.remoteTolocalMap.drop w.currentDataIdx.toNat)

/-- Writes a field of the object: the preserved fields before it, and then the field. -/
def writeFieldBytes (w : PdxRemoteWriter) (f : PdxFieldType) (bytes : List Byte) :
    PdxRemoteWriter :=
  let w := w.writePreserveData
  { w with localWriter := w.localWriter.writeFieldBytes f bytes }

/-- Writes the fields of the object one after the other. -/
def writeFields (w : PdxRemoteWriter) (fields : List (PdxFieldType × List Byte)) :
    PdxRemoteWriter :=
  fields.foldl (fun w p => w.writeFieldBytes p.1 p.2) w

def endObjectWriting (w : PdxRemoteWriter) : PdxRemoteWriter :=
  let w := w.writePreserveData
  { w with localWriter := w.localWriter.writePdxHeader }

end PdxRemoteWriter

end GeodeNative.Pdx

import GeodeNative.Pdx.PdxLocalReader
import GeodeNative.Pdx.PdxRemoteWriter

/-!
# Objects of a known local type

The parts of `PdxHelper::deserializePdx` and `PdxHelper::serializePdx` (`PdxHelper.cpp`) that
handle the fields which the local type lacks. What the object reads in `fromData` leaves the cursor
somewhere in the stream; what it writes in `toData` are the contents of the local fields.
-/

set_option autoImplicit false

namespace GeodeNative.Pdx

open Lib Serialization

/-- A `PdxRemotePreservedData`. The source holds the id of the merged type. -/
structure PdxRemotePreservedData where
  mergedType : PdxType
  preservedData : List (List Byte)

namespace PdxHelper

/-- The end of `deserializePdx` for a remote type, after `fromData`: what the registry gets for
the object. -/
def keepPreservedData (pdxLocalType pType : PdxType) (prr : PdxLocalReader)
    (pdxIgnoreUnreadFields : Bool) : Read (Option PdxRemotePreservedData) := do
  let mergedVersion := pdxLocalType.createMergedType pType
  let preserveData ← prr.getPreservedData pdxIgnoreUnreadFields
  return preserveData.map fun data => ⟨mergedVersion, data⟩

/-- `serializePdx` for an object of a known local type. -/
def serializePdx (output : DataOutput) (localPdxType : PdxType)
    (pd : Option PdxRemotePreservedData) (fields : List (PdxFieldType × List Byte)) :
    PdxRemoteWriter :=
  let prw := match pd with
    | some pd => PdxRemoteWriter.new output pd.mergedType pd.preservedData
    | none => PdxRemoteWriter.newLocal output localPdxType
  (prw.writeFields fields).endObjectWriting

end PdxHelper

end GeodeNative.Pdx

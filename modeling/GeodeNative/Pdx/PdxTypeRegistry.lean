import GeodeNative.Pdx.PdxType

/-!
# The ids of types

The model of `PdxTypeRegistry::getPDXIdForType(PdxTypePtr, …)` (`PdxTypeRegistry.cpp`). The map from
types to ids is ordered by `PdxType::operator<`; here it is a list, since only lookups see it. The
map from ids to types, which the call also fills, is not read by it and is left out.
-/

set_option autoImplicit false

namespace GeodeNative.Pdx

/-- `operator<` of `PdxType`: `strcmp` of the names of the classes. -/
def PdxType.lessThan (t other : PdxType) : Bool := t.className < other.className

/-- `pdxTypeToTypeIdMap`. -/
abbrev PdxTypeToTypeIdMap := List (PdxType × Int)

namespace PdxTypeToTypeIdMap

/-- Two keys are the same when neither is less than the other. -/
def find (map : PdxTypeToTypeIdMap) (nType : PdxType) : Option Int :=
  (map.find? fun e => !e.1.lessThan nType && !nType.lessThan e.1).map Prod.snd

/-- An entry that is there already stays. -/
def insert (map : PdxTypeToTypeIdMap) (nType : PdxType) (typeId : Int) : PdxTypeToTypeIdMap :=
  if (map.find nType).isSome then map else map ++ [(nType, typeId)]

end PdxTypeToTypeIdMap

namespace PdxTypeRegistry

/-- The id and the new map. `server` is what
`SerializationRegistry::GetPDXIdForType` gets for a type. -/
def getPDXIdForType (server : PdxType → Int) (map : PdxTypeToTypeIdMap) (nType : PdxType) :
    Int × PdxTypeToTypeIdMap :=
  let ask :=
    let typeId := server nType
    (typeId, map.insert { nType with geodeTypeId := typeId } typeId)
  match map.find nType with
  | some typeId => if typeId ≠ 0 then (typeId, map) else ask
  | none => ask

/-- Calls in a row, with the ids that they return. -/
def answers (server : PdxType → Int) : PdxTypeToTypeIdMap → List PdxType → List (PdxType × Int)
  | _, [] => []
  | map, nType :: calls =>
    let r := getPDXIdForType server map nType
    (nType, r.1) :: answers server r.2 calls

end PdxTypeRegistry

end GeodeNative.Pdx

import GeodeNative.Statistics.StatArchiveWriter

/-!
# What an archive means

The token format of an archive, as a decoder of the bytes after the header. It is stated from the
side of a reader, and the client has no such code: the archives are read by another program.

The bytes are a sequence of tokens (`readToken`). A reader keeps the types and the instances that
are defined (`Catalog`). A new instance has the value zero for each statistic of its type, and a
sample adds the differences that it has (`Token.apply`). `decode` gives the instances at every
sample.
-/

set_option autoImplicit false

namespace GeodeNative.Statistics

open Lib

/-- What a reader does not accept. -/
inductive ReadError where
  | endOfData
  | unknownToken (token : Byte)
  | unknownType
  | unknownInstance
  | unknownOffset
  deriving DecidableEq

/-- A reader of bytes. -/
abbrev Reader (A : Type) := Parser ReadError Byte A

/-- The definition of a statistic in an archive. -/
structure DescriptorDef where
  name : List Byte
  typeCode : Byte
  isCounter : Byte
  isLargerBetter : Byte
  unit : List Byte
  description : List Byte
  deriving DecidableEq

/-- The definition of a type in an archive. -/
structure TypeDef where
  name : List Byte
  description : List Byte
  stats : List DescriptorDef
  deriving DecidableEq

/-- The tokens. A sample has, for each instance with a change, the offsets and differences. -/
inductive Token where
  | sample (timeStamp : BitVec 32) (changes : List (BitVec 32 × List (Byte × BitVec 64)))
  | resourceType (id : BitVec 32) (type : TypeDef)
  | instanceCreate (id : BitVec 32) (textId : List Byte) (numericId : BitVec 64) (type : BitVec 32)
  | instanceDelete (id : BitVec 32)
  deriving DecidableEq

/-! ## Reading tokens -/

def readByte : Reader Byte := next .endOfData

/-- A big-endian number of `n` bytes. -/
def readNumber (n : Nat) : Reader (BitVec (8 * n)) := do
  let bytes ← nextN .endOfData n
  return ofBigEndian (8 * n) bytes

def readString : Reader (List Byte) := do
  let len ← readNumber 2
  nextN .endOfData len.toNat

/-- A compact value. A byte below -121 says how many bytes there are, from two on. The first byte
has the sign. -/
def readCompactValue : Reader (BitVec 64) := do
  let token ← readByte
  if token.toInt < -128 + 7 then
    let first ← readByte
    let rest ← nextN .endOfData ((token - compactValue2Token).toNat + 1)
    return shiftIn (first.signExtend 64) rest
  else return token.signExtend 64

/-- The id of an instance in one, three or five bytes. `none` is the illegal id. -/
def readResourceInst : Reader (Option (BitVec 32)) := do
  let token ← readByte
  if token = 255 then return none
  else if token = 254 then
    let id ← readNumber 4
    return some id
  else if token = 253 then
    let id ← readNumber 2
    return some (id.setWidth 32)
  else return some (token.setWidth 32)

/-- The offsets and the differences of an instance, up to the illegal offset. There are at most 255
offsets. -/
def readChanges : Nat → Reader (List (Byte × BitVec 64))
  | 0 => throw .endOfData
  | fuel + 1 => do
    let offset ← readByte
    if offset = 255 then return []
    else
      let delta ← readCompactValue
      let rest ← readChanges fuel
      return (offset, delta) :: rest

/-- The instances of a sample, up to the illegal id. -/
def readInstances : Nat → Reader (List (BitVec 32 × List (Byte × BitVec 64)))
  | 0 => throw .endOfData
  | fuel + 1 => do
    match ← readResourceInst with
    | none => return []
    | some id =>
      let changes ← readChanges 256
      let rest ← readInstances fuel
      return (id, changes) :: rest

def readTimeStamp : Reader (BitVec 32) := do
  let delta ← readNumber 2
  if delta = 65535 then readNumber 4
  else return delta.setWidth 32

def readDescriptor : Reader DescriptorDef := do
  let name ← readString
  let typeCode ← readByte
  let isCounter ← readByte
  let isLargerBetter ← readByte
  let unit ← readString
  let description ← readString
  return { name, typeCode, isCounter, isLargerBetter, unit, description }

def readType : Reader TypeDef := do
  let name ← readString
  let description ← readString
  let count ← readNumber 2
  let stats ← times count.toNat readDescriptor
  return { name, description, stats }

/-- The number of bytes of the buffer. -/
def bufferLength : Reader Nat := do
  let s ← get
  return s.buffer.length

def readToken : Reader Token := do
  let token ← readByte
  if token = 0 then
    let timeStamp ← readTimeStamp
    let fuel ← bufferLength
    let changes ← readInstances (fuel + 1)
    return .sample timeStamp changes
  else if token = 1 then
    let id ← readNumber 4
    let type ← readType
    return .resourceType id type
  else if token = 2 then
    let id ← readNumber 4
    let textId ← readString
    let numericId ← readNumber 8
    let type ← readNumber 4
    return .instanceCreate id textId numericId type
  else if token = 3 then
    let id ← readNumber 4
    return .instanceDelete id
  else throw (.unknownToken token)

/-- The tokens up to the end of the buffer. -/
def readTokens : Nat → Reader (List Token)
  | 0 => throw .endOfData
  | fuel + 1 => do
    let s ← get
    if s.pos = s.buffer.length then return []
    else
      let token ← readToken
      let rest ← readTokens fuel
      return token :: rest

/-! ## Their meaning -/

/-- An instance as the reader knows it. -/
structure Instance where
  textId : List Byte
  numericId : BitVec 64
  type : TypeDef
  values : List (BitVec 64)
  deriving DecidableEq

/-- The types and the instances that are defined. -/
structure Catalog where
  types : List (BitVec 32 × TypeDef)
  instances : List (BitVec 32 × Instance)

/-- Adds the differences to the values of an instance. -/
def addChanges : List (Byte × BitVec 64) → List (BitVec 64) → Except ReadError (List (BitVec 64))
  | [], values => .ok values
  | (offset, delta) :: rest, values =>
    match values[offset.toNat]? with
    | none => .error .unknownOffset
    | some value => addChanges rest (values.set offset.toNat (value + delta))

/-- The changes of a sample, one instance after the other. -/
def applyChanges :
    List (BitVec 32 × List (Byte × BitVec 64)) → List (BitVec 32 × Instance) →
      Except ReadError (List (BitVec 32 × Instance))
  | [], instances => .ok instances
  | (id, changes) :: rest, instances =>
    match instances.lookup id with
    | none => .error .unknownInstance
    | some inst =>
      match addChanges changes inst.values with
      | .error e => .error e
      | .ok values =>
        applyChanges rest (instances.map fun node =>
          if node.1 = id then (id, { inst with values := values }) else node)

/-- The catalog after a token, and the instances of the sample when it is one. -/
def Token.apply (c : Catalog) : Token → Except ReadError (Catalog × Option (List Instance))
  | .sample _ changes =>
    match applyChanges changes c.instances with
    | .error e => .error e
    | .ok instances => .ok ({ c with instances := instances }, some (instances.map (·.2)))
  | .resourceType id type => .ok ({ c with types := (id, type) :: c.types }, none)
  | .instanceCreate id textId numericId typeId =>
    match c.types.lookup typeId with
    | none => .error .unknownType
    | some type =>
      let inst : Instance := ⟨textId, numericId, type, List.replicate type.stats.length 0⟩
      .ok ({ c with instances := c.instances ++ [(id, inst)] }, none)
  | .instanceDelete id =>
    .ok ({ c with instances := c.instances.filter (·.1 ≠ id) }, none)

/-- The instances at each sample of a sequence of tokens. -/
def interpret (c : Catalog) : List Token → Except ReadError (List (List Instance))
  | [] => .ok []
  | token :: rest =>
    match token.apply c with
    | .error e => .error e
    | .ok (c, none) => interpret c rest
    | .ok (c, some sample) =>
      match interpret c rest with
      | .error e => .error e
      | .ok samples => .ok (sample :: samples)

/-- The instances at each sample of an archive, from the bytes after the header. -/
def decode (bytes : List Byte) : Except ReadError (List (List Instance)) :=
  match readTokens (bytes.length + 1) ⟨bytes, 0⟩ with
  | .error e _ => .error e
  | .ok tokens _ => interpret ⟨[], []⟩ tokens

/-! ## What is in an archive -/

/-- A descriptor in an archive. A string is archived up to 65535 bytes. -/
def StatisticDescriptor.archived (d : StatisticDescriptor) : DescriptorDef where
  name := d.name.take 0xFFFF
  typeCode := d.typeCode.code
  isCounter := if d.isCounter then 1 else 0
  isLargerBetter := if d.isLargerBetter then 1 else 0
  unit := d.unit.take 0xFFFF
  description := d.description.take 0xFFFF

/-- A type in an archive. -/
def StatisticsType.archived (t : StatisticsType) : TypeDef where
  name := t.name.take 0xFFFF
  description := t.description.take 0xFFFF
  stats := t.stats.map StatisticDescriptor.archived

section

variable {P T : Type}

/-- A statistics object in an archive, with these values. -/
def Stats.archived (types : T → StatisticsType) (s : Stats T) (values : List (BitVec 64)) :
    Instance where
  textId := s.textId.take 0xFFFF
  numericId := s.numericId
  type := (types s.type).archived
  values := values

/-- The raw values of all statistics of an object. -/
def Stats.values (types : T → StatisticsType) (s : Stats T) : List (BitVec 64) :=
  (List.range (types s.type).stats.length).map s.rawBits

/-- The open objects, with their values. -/
def Archive.snapshot (types : T → StatisticsType) (st : Archive P T) : List Instance :=
  (st.statsList.filter fun p => !(st.heap p).closed).map fun p =>
    (st.heap p).archived types ((st.heap p).values types)

/-- The open objects at each sample of a run. -/
def Archive.snapshots [DecidableEq P] [DecidableEq T] (types : T → StatisticsType) :
    Archive P T → List (ArchiveOp P T) → List (List Instance)
  | _, [] => []
  | st, op :: ops =>
    let rest := snapshots types (op.step types st) ops
    match op with
    | .sample _ _ => st.snapshot types :: rest
    | _ => rest

end

end GeodeNative.Statistics

import Elucid.Json

/-!
# Catalog definitions

An input has a history of profiles that say how its records map to a schema. The types here
hold what normalization reads of them : the names, digests and versions of inputs are not among
it.
-/

namespace Elucid

abbrev FieldId := UuidV7

inductive LogicalType
  | bool
  | int32
  | int64
  | uint32
  | uint64
  | float32
  | float64
  | utf8
  | datetime
  | eid
  | json
  deriving DecidableEq, Repr

inductive Nullability
  | nonNull
  | nullable
  deriving DecidableEq, Repr

inductive FieldRole
  | eventTime
  | ingestionTime
  | eventId
  | data
  | remainder
  deriving DecidableEq, Repr

/-- `JsonPointer`, by its decoded tokens. -/
structure JsonPointer where
  tokens : List Text
  deriving DecidableEq

inductive EventTimeFormat
  | rfc3339
  | unixMilliseconds
  deriving DecidableEq, Repr

structure EventTimeMapping where
  jsonPointer : JsonPointer
  format : EventTimeFormat
  deriving DecidableEq

structure FieldMapping where
  targetFieldId : FieldId
  jsonPointer : JsonPointer
  deriving DecidableEq

/-- `IngestionProfile` : `maximumRecordBytes` is a `NonZeroU64`. -/
@[ext] structure IngestionProfile where
  maximumRecordBytes : Nat
  eventTime : EventTimeMapping
  mappings : List FieldMapping
  maximumRecordBytes_pos : 0 < maximumRecordBytes
  maximumRecordBytes_lt : maximumRecordBytes < 2 ^ 64
  targets_nodup : (mappings.map (·.targetFieldId)).Nodup

instance : DecidableEq IngestionProfile := fun _ _ => decidable_of_iff' _ IngestionProfile.ext_iff

structure IngestionProfileRevision where
  id : IngestionProfileRevisionId
  targetSchemaId : SchemaId
  profile : IngestionProfile
  deriving DecidableEq

structure Input where
  id : InputId
  profileRevisions : List IngestionProfileRevision
  deriving DecidableEq

end Elucid

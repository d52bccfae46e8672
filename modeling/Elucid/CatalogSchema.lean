import Elucid.Catalog
import Elucid.SpoolModel

/-!
# Schemas of the catalog

A source has a history of schemas and inputs. A schema is made of the fields that a user declares. The catalog puts three system fields
in front of them and the remainder behind, numbers them all and refuses a schema that
names or identifies two fields alike. The names of user fields are identifiers, so that
none of them is the name of a system field.

`Catalog.Schema` carries the fields it was made of.
-/

namespace Elucid

namespace Catalog

open BigEndian

/-! ## Names and identities -/

/-- `u8::is_ascii_alphabetic`. -/
def isAlphabetic (byte : UInt8) : Bool :=
  (0x41 ≤ byte && byte ≤ 0x5A) || (0x61 ≤ byte && byte ≤ 0x7A)

def isValidName : Text → Bool
  | [] => false
  | first :: rest =>
    (isAlphabetic first || first == 0x5F) &&
      rest.all fun byte => isAlphabetic byte || (0x30 ≤ byte && byte ≤ 0x39) || byte == 0x5F

/-- `SourceName`, `InputName` and `UserFieldName`. -/
@[ext] structure Name where
  value : Text
  valid : isValidName value = true

instance : DecidableEq Name := fun _ _ => decidable_of_iff' _ Name.ext_iff

/-- The identity of a system field, by its last byte. -/
def systemFieldBytes (last : UInt8) : Bytes :=
  [0, 0, 0, 0, 0, 0, 0x70, 0, 0x80, 0, 0, 0, 0, 0, 0, last]

theorem length_systemFieldBytes (last : UInt8) : (systemFieldBytes last).length = 16 := rfl

theorem isVersion7_systemFieldBytes (last : UInt8) :
    Uuid.isVersion7 ⟨systemFieldBytes last, length_systemFieldBytes last⟩ = true := by
  simp [Uuid.isVersion7, systemFieldBytes]

/-- `FieldId::system`. -/
def systemFieldId (last : UInt8) : FieldId :=
  ⟨⟨systemFieldBytes last, length_systemFieldBytes last⟩, isVersion7_systemFieldBytes last⟩

/-- `FieldId::EVENT_TIME`. -/
def eventTimeId : FieldId := systemFieldId 1

/-- `FieldId::INGESTION_TIME`. -/
def ingestionTimeId : FieldId := systemFieldId 2

/-- `FieldId::EVENT_ID`. -/
def eventIdId : FieldId := systemFieldId 3

/-- `FieldId::REMAINDER`. -/
def remainderId : FieldId := systemFieldId 4

/-- `FieldId::is_system`. -/
def isSystem (id : FieldId) : Bool :=
  id = eventTimeId || id = ingestionTimeId || id = eventIdId || id = remainderId

/-! ## Fields -/

inductive UserLogicalType
  | bool
  | int32
  | int64
  | uint32
  | uint64
  | float32
  | float64
  | utf8
  | datetime
  deriving DecidableEq, Repr

/-- `LogicalType::from`. -/
def UserLogicalType.toLogicalType : UserLogicalType → LogicalType
  | .bool => .bool
  | .int32 => .int32
  | .int64 => .int64
  | .uint32 => .uint32
  | .uint64 => .uint64
  | .float32 => .float32
  | .float64 => .float64
  | .utf8 => .utf8
  | .datetime => .datetime

/-- `UserField`, as its constructors let it be : its identity is not reserved, and only a
nullable field has a pointer into the remainder of older records. -/
@[ext] structure UserField where
  id : FieldId
  name : Name
  logicalType : UserLogicalType
  nullability : Nullability
  description : Option Text
  historicalRemainderPointer : Option JsonPointer
  not_isSystem : isSystem id = false
  nullable_of_pointer : historicalRemainderPointer.isSome → nullability = .nullable

instance : DecidableEq UserField := fun _ _ => decidable_of_iff' _ UserField.ext_iff

structure Field where
  id : FieldId
  name : Text
  logicalType : LogicalType
  nullability : Nullability
  role : FieldRole
  ordinal : Nat
  description : Option Text
  historicalRemainderPointer : Option JsonPointer
  deriving DecidableEq

/-- `CatalogModelError`, as far as a schema can fail. -/
inductive SchemaError
  | duplicateFieldIdentity (fieldId : FieldId)
  | duplicateFieldName (name : Text)
  | fieldOrdinalOverflow
  deriving DecidableEq

/-- `FieldOrdinal::from_index`. -/
def fieldOrdinal (index : Nat) : Except SchemaError Nat :=
  if index < 2 ^ 31 then .ok index else .error .fieldOrdinalOverflow

/-- `Field::system`. -/
def Field.system (id : FieldId) (name : String) (logicalType : LogicalType)
    (nullability : Nullability) (role : FieldRole) (index : Nat) : Except SchemaError Field := do
  let ordinal ← fieldOrdinal index
  return ⟨id, Text.ofString name, logicalType, nullability, role, ordinal, none, none⟩

/-- `Field::user`. -/
def Field.user (field : UserField) (index : Nat) : Except SchemaError Field := do
  let ordinal ← fieldOrdinal index
  return ⟨field.id, field.name.value, field.logicalType.toLogicalType, field.nullability, .data,
    ordinal, field.description, field.historicalRemainderPointer⟩

/-! ## Schemas -/

/-- The loop of `validate_unique_user_fields`, behind the fields that were seen. -/
def validateUniqueUserFields :
    List FieldId → List Text → List UserField → Except SchemaError Unit
  | _, _, [] => .ok ()
  | identities, names, field :: rest => do
    ensure (field.id ∉ identities) (.duplicateFieldIdentity field.id)
    ensure (field.name.value ∉ names) (.duplicateFieldName field.name.value)
    validateUniqueUserFields (field.id :: identities) (field.name.value :: names) rest

/-- The loop of `materialize_user_fields` that numbers the user fields. -/
def numberUserFields : Nat → List UserField → Except SchemaError (List Field)
  | _, [] => .ok []
  | index, field :: rest => do
    let numbered ← Field.user field index
    let fields ← numberUserFields (index + 1) rest
    return numbered :: fields

/-- `Schema::materialize_user_fields`. -/
def materializeUserFields (userFields : List UserField) : Except SchemaError (List Field) := do
  validateUniqueUserFields [] [] userFields
  let capacity ← okOr (checkedAdd userFields.length 4) .fieldOrdinalOverflow
  let _ ← fieldOrdinal (capacity - 1)
  let eventTime ← Field.system eventTimeId "@event_time" .datetime .nonNull .eventTime 0
  let ingestionTime ←
    Field.system ingestionTimeId "@ingestion_time" .datetime .nonNull .ingestionTime 1
  let eventId ← Field.system eventIdId "@event_id" .eid .nonNull .eventId 2
  let fields ← numberUserFields 3 userFields
  let remainder ←
    Field.system remainderId "@rest" .json .nullable .remainder (3 + fields.length)
  return eventTime :: ingestionTime :: eventId :: (fields ++ [remainder])

/-- `Schema`. Its fields were made of user fields. -/
@[ext] structure Schema where
  id : SchemaId
  sourceId : SourceId
  version : Nat
  declarationDigest : Digest
  materializedDigest : Digest
  fields : List Field
  materialized : ∃ userFields, materializeUserFields userFields = .ok fields

instance : DecidableEq Schema := fun _ _ => decidable_of_iff' _ Schema.ext_iff

/-! ## What a schema is made of -/

/-- A user field with its number. -/
def Field.ofUser (field : UserField) (index : Nat) : Field :=
  ⟨field.id, field.name.value, field.logicalType.toLogicalType, field.nullability, .data, index,
    field.description, field.historicalRemainderPointer⟩

/-- The fields of a schema : three system fields, the numbered user fields, and the
remainder. -/
def schemaFields (userFields : List UserField) : List Field :=
  ⟨eventTimeId, Text.ofString "@event_time", .datetime, .nonNull, .eventTime, 0, none, none⟩ ::
  ⟨ingestionTimeId, Text.ofString "@ingestion_time", .datetime, .nonNull, .ingestionTime, 1, none,
    none⟩ ::
  ⟨eventIdId, Text.ofString "@event_id", .eid, .nonNull, .eventId, 2, none, none⟩ ::
  ((userFields.zipIdx 3).map (fun (field, index) => Field.ofUser field index) ++
    [⟨remainderId, Text.ofString "@rest", .json, .nullable, .remainder, 3 + userFields.length,
      none, none⟩])

theorem materializeUserFields_nil : materializeUserFields [] = .ok (schemaFields []) := rfl

/-- A schema without user fields. -/
def Schema.first : Schema :=
  ⟨UuidV7.sample 11, UuidV7.sample 10, 1, .zero, .zero, _, [], materializeUserFields_nil⟩

end Catalog

/-! ## Sources -/

structure Source where
  id : SourceId
  schemas : List Catalog.Schema
  inputs : List Input
  deriving DecidableEq

/-- `Source::schema`. -/
def Source.schema (source : Source) (schemaId : SchemaId) : Option Catalog.Schema :=
  source.schemas.find? fun schema => schema.id = schemaId

/-- `Source::input`. -/
def Source.input (source : Source) (inputId : InputId) : Option Input :=
  source.inputs.find? fun input => input.id = inputId

/-! ## Concrete values -/

/-- A source whose records have their time under `t`, in milliseconds, and no fields. -/
def Source.sample : Source where
  id := UuidV7.sample 1
  schemas := [{ Catalog.Schema.first with id := UuidV7.sample 4, sourceId := UuidV7.sample 1 }]
  inputs := [⟨UuidV7.sample 2, [⟨UuidV7.sample 3, UuidV7.sample 4,
    ⟨1024, ⟨⟨[Text.ofString "t"]⟩, .unixMilliseconds⟩, [], kibibyte_pos, kibibyte_lt, by decide⟩⟩]⟩]

end Elucid

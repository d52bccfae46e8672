import Elucid.SpoolModel

/-!
# Columnar data

Arrow's fields, arrays and record batches, as far as columns without children go. An array
has a type and, for each row, a value of that type or null. A record batch has one array for
each field of its schema, of the type of the field and of one length, and no null where the
field does not allow it (`Field.Holds`).
-/

namespace Elucid

namespace Arrow

/-! ## Types and arrays -/

/-- `DataType`. The timestamps are in UTC. -/
inductive DataType
  | boolean
  | int32
  | int64
  | uint32
  | uint64
  | float32
  | float64
  | utf8
  | timestampMillisecond
  | fixedSizeBinary (width : Nat)
  deriving DecidableEq

/-- What an array has in a row that is not null. A floating-point number is its bits. -/
abbrev DataType.Cell : DataType → Type
  | .boolean => Bool
  | .int32 | .int64 | .timestampMillisecond => Int
  | .uint32 | .uint64 => Nat
  | .float32 => UInt32
  | .float64 => UInt64
  | .utf8 => List UInt8
  | .fixedSizeBinary width => { bytes : List UInt8 // bytes.length = width }

structure ArrayRef where
  dataType : DataType
  values : List (Option dataType.Cell)

namespace ArrayRef

/-- `Array::len`. -/
def length (array : ArrayRef) : Nat := array.values.length

/-- `Array::null_count`. -/
def nullCount (array : ArrayRef) : Nat := array.values.countP Option.isNone

end ArrayRef

/-! ## Record batches -/

/-- `Field`, with the entries of its metadata. -/
structure Field where
  name : List UInt8
  dataType : DataType
  nullable : Bool
  metadata : List (List UInt8 × List UInt8)
  deriving DecidableEq

/-- An array is the column of a field in a batch with some rows. -/
structure Field.Holds (rowCount : Nat) (field : Field) (array : ArrayRef) : Prop where
  dataType : array.dataType = field.dataType
  length : array.length = rowCount
  nonNull : field.nullable = false → array.nullCount = 0

structure RecordBatch where
  schema : List Field
  columns : List ArrayRef
  rowCount : Nat
  conforms : List.Forall₂ (Field.Holds rowCount) schema columns

end Arrow

end Elucid

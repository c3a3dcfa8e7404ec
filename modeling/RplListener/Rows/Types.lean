import RplListener.Lib.Bytes
import RplListener.Lib.Heap

/-!
# Rows events and what is delivered of them

The records of `mysql_rpl_listener_row.h` and `mysql_rpl_tbl_info.h`, the parts
of the library's table map and rows events that the decoder reads, and the
library functions it calls. The library is not part of the repository: it is a
parameter, one function for each call, and what the results need of it is
stated where they are proved.
-/

namespace RplListener

-- ---------------------------------------------------------------------------
-- Column types
-- ---------------------------------------------------------------------------

/-- The `enum_field_types` the decoder has a branch for. -/
inductive FieldType where
  | tiny | short | long | float | double | timestamp | longlong | int24 | time | datetime | year
  | newdate | varchar | bit | timestamp2 | datetime2 | time2 | json | newdecimal | enum | set
  | blob | varString | string | geometry
  deriving DecidableEq, Repr

def FieldType.ofCode : Nat → Option FieldType
  | 1 => some .tiny
  | 2 => some .short
  | 3 => some .long
  | 4 => some .float
  | 5 => some .double
  | 7 => some .timestamp
  | 8 => some .longlong
  | 9 => some .int24
  | 11 => some .time
  | 12 => some .datetime
  | 13 => some .year
  | 14 => some .newdate
  | 15 => some .varchar
  | 16 => some .bit
  | 17 => some .timestamp2
  | 18 => some .datetime2
  | 19 => some .time2
  | 245 => some .json
  | 246 => some .newdecimal
  | 247 => some .enum
  | 248 => some .set
  | 252 => some .blob
  | 253 => some .varString
  | 254 => some .string
  | 255 => some .geometry
  | _ => none

/-- One column of a `table_def`: `type(i)` and `field_metadata(i)`. -/
structure Column where
  type : UInt8
  metadata : UInt16
  deriving DecidableEq, Repr

def Column.isJson (c : Column) : Bool := FieldType.ofCode c.type.toNat == some .json

structure TableDef where
  columns : List Column
  deriving DecidableEq, Repr

def TableDef.size (td : TableDef) : Nat := td.columns.length

def TableDef.jsonColumnCount (td : TableDef) : Nat := td.columns.countP Column.isJson

-- ---------------------------------------------------------------------------
-- Delivered values
-- ---------------------------------------------------------------------------

structure DisplayBlobs where
  blobsDisplay : Bool
  geometryAsHex : Bool
  blobAsHex : Bool
  deriving DecidableEq, Repr

/-- `_repl_log_x_value` -/
structure ReplLogXValue where
  val : Ptr (List UInt8)
  len : Int
  isHex : Bool
  deriving DecidableEq, Repr

def ReplLogXValue.zero : ReplLogXValue := { val := .null, len := 0, isHex := false }

/-- A cell of memory that was never written. -/
def ReplLogXValue.junk : ReplLogXValue := { val := .wild, len := 0, isHex := false }

structure ColInfo where
  type : UInt8
  name : List UInt8
  isUnsigned : Bool
  deriving DecidableEq, Repr

/-- The fields of `_repl_log_x_rows` that the row decoder fills. A row pointer
of `rows` and `rows_after` is its offset in the flat block. -/
structure RowSet where
  typeCode : Nat := 0
  rowsCount : Nat := 0
  rows : Ptr (List Nat) := .null
  rowsAfter : Ptr (List Nat) := .null
  rowsL2 : Ptr (List ReplLogXValue) := .null
  rowsAfterL2 : Ptr (List ReplLogXValue) := .null
  deriving DecidableEq, Repr

def replLogXInsert : Nat := 0
def replLogXUpdate : Nat := 1
def replLogXDelete : Nat := 2

-- ---------------------------------------------------------------------------
-- Events
-- ---------------------------------------------------------------------------

/-- `Log_event_type`, as far as the listener tells the types apart. -/
inductive LogEventType where
  | writeRows | deleteRows | updateRows | writeRowsV1 | deleteRowsV1 | updateRowsV1
  | partialUpdateRows | query | xid | xaPrepareLog | transactionPayload | formatDescription
  | tableMap | rotate | intvar | rand | userVar | appendBlock | beginLoadQuery
  | executeLoadQuery | rowsQueryLog | anonymousGtidLog | gtidLog | previousGtidsLog | stop
  | heartbeatLog
  | other (code : Nat)
  deriving DecidableEq, Repr

/-- `get_general_type_code()`: the type with its version and its partial form
forgotten. -/
def LogEventType.general : LogEventType → LogEventType
  | .writeRowsV1 => .writeRows
  | .deleteRowsV1 => .deleteRows
  | .updateRowsV1 | .partialUpdateRows => .updateRows
  | t => t

inductive RowImageType where
  | writeAI | updateBI | updateAI | deleteBI
  deriving DecidableEq, Repr

/-- The first image of a row of this event; `none` is not a rows event. -/
def LogEventType.firstImage (t : LogEventType) : Option RowImageType :=
  match t.general with
  | .writeRows => some .writeAI
  | .deleteRows => some .deleteBI
  | .updateRows => some .updateBI
  | _ => none

def RowImageType.typeCode : RowImageType → Nat
  | .writeAI => replLogXInsert
  | .updateBI | .updateAI => replLogXUpdate
  | .deleteBI => replLogXDelete

/-- A `Table_map_log_event`, with the `table_def` the library makes of it. The
event is smaller than `2 ^ 32` bytes, so its column count is too. -/
structure TableMapLogEvent where
  /-- The bytes the event was made from. -/
  tempBuf : List UInt8
  tableId : Nat
  dbName : List UInt8
  tableName : List UInt8
  mColtype : List UInt8
  mOptionalMetadata : List UInt8
  columns : List Column
  columns_length : columns.length = mColtype.length
  colcnt_lt : mColtype.length < 2 ^ 32

def TableMapLogEvent.mColcnt (map : TableMapLogEvent) : Nat := map.mColtype.length

def TableMapLogEvent.tableDef (map : TableMapLogEvent) : TableDef := ⟨map.columns⟩

/-- A rows event: `mRowsBuf` are the bytes from `m_rows_buf` to `m_rows_end`. The
event size is a four-byte field of the event header. -/
structure RowsLogEvent2 where
  typeCode : LogEventType
  when : Nat
  tableId : Nat
  /-- `m_extra_row_info.get_ndb_length()`, when there is NDB information. -/
  ndbLength : Option Nat
  mCols : List Bool
  mColsAi : List Bool
  mRowsBuf : List UInt8
  size_lt : mRowsBuf.length < 2 ^ 32

def extraRowInfoHeaderLength : Nat := 2

-- ---------------------------------------------------------------------------
-- The library
-- ---------------------------------------------------------------------------

/-- `net_field_length_checked`: it fails, or gives a number and the bytes it
took. `outside` is a read past the bytes there are. -/
inductive Lenenc where
  | failed
  | outside
  | value (v taken : Nat)
  deriving DecidableEq, Repr

inductive JsonDoc where
  | error
  | throws (what : String)
  | outside
  | value (text : List UInt8)
  deriving DecidableEq, Repr

/-- `Optional_metadata_fields`: the constructor throws, or makes fields that are
not valid, or gives the column names and the signedness of the numeric columns. -/
inductive OptionalMetadata where
  | throws (what : String)
  | invalid
  | fields (mColumnName : List (List UInt8)) (mSignedness : List Bool)
  deriving DecidableEq, Repr

/-- The MySQL functions the listener calls. A function that follows a pointer is
given the bytes from the pointer to the end of the event. -/
structure Library where
  optionalMetadata : List UInt8 → OptionalMetadata
  /-- How many bytes at the cursor `calc_field_size` looks at. -/
  calcFieldSizeReads : (type metadata : Nat) → Nat
  calcFieldSize : (type metadata : Nat) → List UInt8 → Nat
  netFieldLengthChecked : (avail : List UInt8) → (maxLength : Nat) → Lenenc
  parseBinary : (avail : List UInt8) → (length : Nat) → JsonDoc
  myDecimalGetBinarySize : (precision decimals : Nat) → Nat
  decimal2string : (precision decimals : Nat) → List UInt8 → List UInt8
  floatToString : List UInt8 → List UInt8
  doubleToString : List UInt8 → List UInt8
  myTimestampBinaryLength : Nat → Nat
  myTimevalToStr : Nat → List UInt8 → List UInt8
  myDatetimeBinaryLength : Nat → Nat
  myDatetimeToStr : Nat → List UInt8 → List UInt8
  myTimeBinaryLength : Nat → Nat
  myTimeToStr : Nat → List UInt8 → List UInt8

/-- Why the decoder halts. `error` is the ordinary failure: `error_code` is set,
and `set_error_desc` was called with the text. The other two are undefined
behaviour: a read at or beyond `m_rows_end`, and an access outside the block or
the array it is meant for. -/
inductive Halt where
  | error (desc : String)
  | overread
  | outOfBlock
  deriving DecidableEq, Repr

def clip (n : Nat) (text : String) : String := String.ofList (text.toList.take (n - 1))

/-- A name between backquotes, its bytes as characters. -/
def quoted (name : List UInt8) : String :=
  let quote := [Char.ofNat 96]
  String.ofList (quote ++ name.map (fun b => Char.ofNat b.toNat) ++ quote)

/-- `get_error_desc()`, which has what `set_error_desc` made of the text. -/
def errorDesc (desc : String) : String := clip 1024 ("***Rows_log_event_2 Error: " ++ desc)

end RplListener

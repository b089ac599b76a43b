import HoloSphere.Error

/-! # Columnar tables

`ColumnarTable` and the replicated write path of `RelationalSqlEngine` in
`storage/relational_acid.rs`.  Hash maps are functions.  The transactions of the
engine do not take part in that path and are left out.
-/

namespace HoloSphere.Relational
open Function

inductive SqlType where
  | integer
  | text
  | float
  | boolean
  | timestamp
  deriving DecidableEq

/-- A cell; a float is its bit pattern. -/
inductive SqlValue where
  | null
  | integer (value : Int)
  | text (value : String)
  | float (bits : UInt64)
  | boolean (value : Bool)
  deriving DecidableEq

structure ColumnDefinition where
  name : String
  dataType : SqlType
  isPrimaryKey : Bool
  isNullable : Bool
  foreignKeyTarget : Option (String × String)
  deriving DecidableEq

structure TableSchema where
  name : String
  columns : List ColumnDefinition
  primaryKeyColumn : String
  deriving DecidableEq

structure RelationalRow where
  values : String → Option SqlValue

inductive TypedColumnVector where
  | integer (cells : List Int)
  | text (cells : List String)
  | float (cells : List UInt64)
  | boolean (cells : List Bool)
  deriving DecidableEq

namespace TypedColumnVector

def new : SqlType → TypedColumnVector
  | .integer => .integer []
  | .timestamp => .integer []
  | .text => .text []
  | .float => .float []
  | .boolean => .boolean []

/-- A value of another type is stored as the type's zero. -/
def pushValue : TypedColumnVector → SqlValue → TypedColumnVector
  | .integer cells, .integer value => .integer (cells ++ [value])
  | .integer cells, _ => .integer (cells ++ [0])
  | .text cells, .text value => .text (cells ++ [value])
  | .text cells, _ => .text (cells ++ [""])
  | .float cells, .float bits => .float (cells ++ [bits])
  | .float cells, _ => .float (cells ++ [0])
  | .boolean cells, .boolean value => .boolean (cells ++ [value])
  | .boolean cells, _ => .boolean (cells ++ [false])

def getValue (row : Nat) : TypedColumnVector → SqlValue
  | .integer cells => (cells[row]?.map SqlValue.integer).getD .null
  | .text cells => (cells[row]?.map SqlValue.text).getD .null
  | .float cells => (cells[row]?.map SqlValue.float).getD .null
  | .boolean cells => (cells[row]?.map SqlValue.boolean).getD .null

/-- A value of another type leaves the old cell in place. -/
def setValue (row : Nat) : TypedColumnVector → SqlValue → TypedColumnVector
  | .integer cells, .integer value => .integer (cells.set row value)
  | .text cells, .text value => .text (cells.set row value)
  | .float cells, .float bits => .float (cells.set row bits)
  | .boolean cells, .boolean value => .boolean (cells.set row value)
  | column, _ => column

end TypedColumnVector

def sqlValueIndexKey : SqlValue → Option String
  | .integer value => some s!"i:{value}"
  | .text value => some s!"t:{value}"
  | .boolean value => some s!"b:{value}"
  | .float _ => none
  | .null => none

abbrev ColumnIndex := String → Option (List Nat)

structure ColumnarTable where
  schema : TableSchema
  columns : String → Option TypedColumnVector
  pkIndex : String → Option Nat
  colIndexes : String → Option ColumnIndex
  isDeleted : List Bool
  rowVersions : List Nat

namespace ColumnarTable

def new (schema : TableSchema) : ColumnarTable where
  schema := schema
  columns := schema.columns.foldl
    (fun columns column =>
      update columns column.name (some (TypedColumnVector.new column.dataType)))
    fun _ => none
  pkIndex := fun _ => none
  colIndexes := fun _ => none
  isDeleted := []
  rowVersions := []

/-- The slot leaves the list of a value; lists that do not exist are not made. -/
def unindex (column : String) (value : SqlValue) (row : Nat) (table : ColumnarTable) :
    ColumnarTable :=
  match sqlValueIndexKey value, table.colIndexes column with
  | some key, some index =>
    match index key with
    | none => table
    | some slots =>
      let index := update index key (some (slots.filter (· ≠ row)))
      { table with colIndexes := update table.colIndexes column (some index) }
  | _, _ => table

def index (column : String) (value : SqlValue) (row : Nat) (table : ColumnarTable) :
    ColumnarTable :=
  match sqlValueIndexKey value with
  | none => table
  | some key =>
    let ents := (table.colIndexes column).getD fun _ => none
    let ents := update ents key (some ((ents key).getD [] ++ [row]))
    { table with colIndexes := update table.colIndexes column (some ents) }

def cellOf (row : RelationalRow) (column : ColumnDefinition) : SqlValue :=
  (row.values column.name).getD .null

def updateCell (row : RelationalRow) (rowIdx : Nat) (table : ColumnarTable)
    (column : ColumnDefinition) : ColumnarTable :=
  match table.columns column.name with
  | none => table
  | some cells =>
    let table := table.unindex column.name (cells.getValue rowIdx) rowIdx
    let cells := cells.setValue rowIdx (cellOf row column)
    let table := { table with columns := update table.columns column.name (some cells) }
    table.index column.name (cellOf row column) rowIdx

def appendCell (row : RelationalRow) (rowIdx : Nat) (table : ColumnarTable)
    (column : ColumnDefinition) : ColumnarTable :=
  match table.columns column.name with
  | none => table
  | some cells =>
    let cells := cells.pushValue (cellOf row column)
    let table := { table with columns := update table.columns column.name (some cells) }
    table.index column.name (cellOf row column) rowIdx

def insertOrUpdate (pk : String) (row : RelationalRow) (ver : Nat) (table : ColumnarTable) :
    ColumnarTable :=
  match table.pkIndex pk with
  | some rowIdx =>
    let table := table.schema.columns.foldl (updateCell row rowIdx) table
    { table with
      isDeleted := table.isDeleted.set rowIdx false
      rowVersions := table.rowVersions.set rowIdx ver }
  | none =>
    let rowIdx := table.isDeleted.length
    let table := table.schema.columns.foldl (appendCell row rowIdx) table
    { table with
      isDeleted := table.isDeleted ++ [false]
      rowVersions := table.rowVersions ++ [ver]
      pkIndex := update table.pkIndex pk (some rowIdx) }

def clearCell (rowIdx : Nat) (table : ColumnarTable) (column : ColumnDefinition) : ColumnarTable :=
  match table.columns column.name with
  | none => table
  | some cells => table.unindex column.name (cells.getValue rowIdx) rowIdx

def delete (pk : String) (table : ColumnarTable) : ColumnarTable :=
  match table.pkIndex pk with
  | none => table
  | some rowIdx =>
    let table := { table with isDeleted := table.isDeleted.set rowIdx true }
    table.schema.columns.foldl (clearCell rowIdx) table

def getRow (rowIdx : Nat) (table : ColumnarTable) : Option RelationalRow :=
  match table.isDeleted[rowIdx]? with
  | some false =>
    some ⟨table.schema.columns.foldl
      (fun values column =>
        match table.columns column.name with
        | none => values
        | some cells => update values column.name (some (cells.getValue rowIdx)))
      fun _ => none⟩
  | _ => none

def iterRows (table : ColumnarTable) : List RelationalRow :=
  (List.range table.isDeleted.length).filterMap fun rowIdx => table.getRow rowIdx

/-- The lookup of a foreign key's value in the index of the column that it names. -/
def targetExists (targetCol : String) (value : SqlValue) (table : ColumnarTable) : Bool :=
  (((sqlValueIndexKey value).bind fun key =>
      (table.colIndexes targetCol).bind fun idxMap => idxMap key).map fun slots =>
    slots.any fun slot => !(table.isDeleted[slot]?.getD true)).getD false

end ColumnarTable

structure RelationalSqlEngine where
  tables : String → Option TableSchema
  storage : String → Option ColumnarTable
  currentVersion : Nat

namespace RelationalSqlEngine

def new : RelationalSqlEngine := ⟨fun _ => none, fun _ => none, 1⟩

def createTable (schema : TableSchema) (eng : RelationalSqlEngine) :
    Except HNSQRError RelationalSqlEngine :=
  if (eng.tables schema.name).isSome then
    .error (.invalidRequest s!"Table '{schema.name}' already exists")
  else
    .ok { eng with
      tables := update eng.tables schema.name (some schema)
      storage := update eng.storage schema.name (some (ColumnarTable.new schema)) }

def getTableSchema (table : String) (eng : RelationalSqlEngine) : Option TableSchema :=
  eng.tables table

/-- The text of the primary key, as `prepare_mutation` and
    `apply_committed_row_mutation` both read it off a row. -/
def primaryKeyOf (schema : TableSchema) (row : RelationalRow) : Except HNSQRError String :=
  match row.values schema.primaryKeyColumn with
  | none => .error (.invalidRequest s!"Row missing primary key '{schema.primaryKeyColumn}'")
  | some (.text value) => .ok value
  | some (.integer value) => .ok (toString value)
  | some _ => .error (.invalidRequest "Primary key must be Text or Integer")

def applyCommittedRowMutation (table : String) (row : RelationalRow) (isDelete : Bool)
    (eng : RelationalSqlEngine) : Except HNSQRError RelationalSqlEngine := do
  let schema ← match eng.tables table with
    | some schema => Except.ok schema
    | none => .error (.invalidRequest s!"Table '{table}' does not exist")
  let pk ← primaryKeyOf schema row
  let ver := eng.currentVersion + 1
  let stored := (eng.storage table).getD (ColumnarTable.new schema)
  let written := if isDelete then stored.delete pk else stored.insertOrUpdate pk row ver
  .ok { eng with
    currentVersion := ver
    storage := update eng.storage table (some written) }

/-- The replicated path accepts a row exactly when its table and key can be read, and
    never touches the schemas. -/
theorem applyCommittedRowMutation_ok (isDelete : Bool) {eng : RelationalSqlEngine}
    (known : eng.tables table = some schema) (keyed : primaryKeyOf schema row = .ok pk) :
    ∃ written, eng.applyCommittedRowMutation table row isDelete = .ok written ∧
      written.tables = eng.tables := by
  simp only [applyCommittedRowMutation, known, keyed, bind, Except.bind]
  exact ⟨_, rfl, rfl⟩

end RelationalSqlEngine
end HoloSphere.Relational

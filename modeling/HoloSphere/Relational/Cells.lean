import HoloSphere.Program.LocalFold
import HoloSphere.Relational.Columnar

/-! # Cells of a columnar table

What writing one cell does to the column's vector and to the column's index.  A typed
vector has no place for Null or a value of another type: a new cell gets the zero of
its type for it, and an old cell keeps what it had.
-/

namespace HoloSphere.Relational
open Function
namespace SqlType

/-- The value is one of the type; Null is of none. -/
def admits : SqlType → SqlValue → Bool
  | .integer, .integer _ => true
  | .timestamp, .integer _ => true
  | .text, .text _ => true
  | .float, .float _ => true
  | .boolean, .boolean _ => true
  | _, _ => false

def zero : SqlType → SqlValue
  | .integer => .integer 0
  | .timestamp => .integer 0
  | .text => .text ""
  | .float => .float 0
  | .boolean => .boolean false

/-- What a new cell holds once the value is pushed. -/
def fill (type : SqlType) (val : SqlValue) : SqlValue :=
  if type.admits val then val else type.zero

def overwrite (type : SqlType) (old val : SqlValue) : SqlValue :=
  if type.admits val then val else old

theorem admits_fill (type : SqlType) (val : SqlValue) : type.admits (type.fill val) = true := by
  unfold fill
  split
  · assumption
  · cases type <;> rfl

theorem admits_overwrite {type : SqlType} (typed : type.admits old = true) (val : SqlValue) :
    type.admits (type.overwrite old val) = true := by
  unfold overwrite
  split
  · assumption
  · exact typed

theorem ne_null_of_admits {type : SqlType} (typed : type.admits val = true) : val ≠ .null := by
  rintro rfl
  cases type <;> cases typed

end SqlType

namespace TypedColumnVector

def ofType : SqlType → TypedColumnVector → Bool
  | .integer, .integer _ => true
  | .timestamp, .integer _ => true
  | .text, .text _ => true
  | .float, .float _ => true
  | .boolean, .boolean _ => true
  | _, _ => false

def toList : TypedColumnVector → List SqlValue
  | .integer cells => cells.map .integer
  | .text cells => cells.map .text
  | .float cells => cells.map .float
  | .boolean cells => cells.map .boolean

theorem new_ofType (type : SqlType) : (new type).ofType type = true := by
  cases type <;> rfl

theorem new_toList (type : SqlType) : (new type).toList = [] := by
  cases type <;> rfl

theorem getValue_eq (row : Nat) (vec : TypedColumnVector) :
    vec.getValue row = (vec.toList[row]?).getD .null := by
  cases vec <;> simp [getValue, toList]

variable {type : SqlType} {vec : TypedColumnVector}

section
variable (typed : vec.ofType type = true)
include typed

theorem pushValue_ofType (val : SqlValue) : (vec.pushValue val).ofType type = true := by
  cases type <;> cases vec <;> cases typed <;> cases val <;> rfl

theorem setValue_ofType : (vec.setValue row val).ofType type = true := by
  cases type <;> cases vec <;> cases typed <;> cases val <;> rfl

theorem pushValue_toList (val : SqlValue) :
    (vec.pushValue val).toList = vec.toList ++ [type.fill val] := by
  cases type <;> cases vec <;> cases typed <;> cases val <;>
    simp [pushValue, toList, SqlType.fill, SqlType.admits, SqlType.zero]

theorem setValue_toList :
    (vec.setValue row val).toList = vec.toList.modify row fun old => type.overwrite old val := by
  have kept : ∀ cells : List SqlValue, cells.modify row (fun old => old) = cells :=
    fun cells => List.modify_id row cells
  have changed : ∀ (cells : List SqlValue) (cell : SqlValue),
      cells.modify row (fun _ => cell) = cells.set row cell :=
    fun cells cell => (List.set_eq_modify cell row cells).symm
  cases type <;> cases vec <;> cases typed <;> cases val <;>
    simp [setValue, toList, SqlType.overwrite, SqlType.admits, kept, changed]

theorem admits_of_mem_toList (mem : val ∈ vec.toList) : type.admits val = true := by
  cases type <;> cases vec <;> cases typed <;>
    simp only [toList, List.mem_map] at mem <;> obtain ⟨cell, -, rfl⟩ := mem <;> rfl

end
end TypedColumnVector

namespace ColumnIndex

def slotsUnder (key : String) (index : Option ColumnIndex) : List Nat :=
  (index.bind fun ents => ents key).getD []

def removeSlot (val : SqlValue) (row : Nat) (index : Option ColumnIndex) : Option ColumnIndex :=
  match sqlValueIndexKey val, index with
  | some key, some ents =>
    match ents key with
    | none => index
    | some slots => some (update ents key (some (slots.filter (· ≠ row))))
  | _, _ => index

def addSlot (val : SqlValue) (row : Nat) (index : Option ColumnIndex) : Option ColumnIndex :=
  match sqlValueIndexKey val with
  | none => index
  | some key =>
    let ents := index.getD fun _ => none
    some (update ents key (some ((ents key).getD [] ++ [row])))

theorem slotsUnder_removeSlot : slotsUnder key (removeSlot val row index) =
      if sqlValueIndexKey val = some key then (slotsUnder key index).filter (· ≠ row)
      else slotsUnder key index := by
  unfold removeSlot
  cases indexed : sqlValueIndexKey val with
  | none => simp
  | some own =>
    cases index with
    | none => simp [slotsUnder]
    | some ents =>
      dsimp only
      by_cases same : own = key
      · subst same
        cases listed : ents own with
        | none | some => simp [slotsUnder, listed]
      · cases listed : ents own with
        | none => simp [same]
        | some slots => simp [slotsUnder, same, update_of_ne (Ne.symm same)]

theorem slotsUnder_addSlot : slotsUnder key (addSlot val row index) =
      if sqlValueIndexKey val = some key then slotsUnder key index ++ [row]
      else slotsUnder key index := by
  unfold addSlot
  cases indexed : sqlValueIndexKey val with
  | none => simp
  | some own =>
    by_cases same : own = key
    · subst same
      cases index <;> simp [slotsUnder]
    · cases index <;> simp [slotsUnder, same, update_of_ne (Ne.symm same)]

end ColumnIndex

namespace ColumnarTable
open ColumnIndex

/-- What the table keeps under a column's name. -/
abbrev Entry := Option TypedColumnVector × Option ColumnIndex

def entry (tbl : ColumnarTable) (name : String) : Entry := (tbl.columns name, tbl.colIndexes name)

/-- What no cell of a row touches. -/
def frame (tbl : ColumnarTable) : TableSchema × (String → Option Nat) × List Bool × List Nat :=
  (tbl.schema, tbl.pkIndex, tbl.isDeleted, tbl.rowVersions)

def updateEntry (val : SqlValue) (rowIdx : Nat) : Entry → Entry
  | (none, index) => (none, index)
  | (some cells, index) =>
    (some (cells.setValue rowIdx val),
      addSlot val rowIdx (removeSlot (cells.getValue rowIdx) rowIdx index))

def appendEntry (val : SqlValue) (rowIdx : Nat) : Entry → Entry
  | (none, index) => (none, index)
  | (some cells, index) => (some (cells.pushValue val), addSlot val rowIdx index)

def clearEntry (rowIdx : Nat) : Entry → Entry
  | (none, index) => (none, index)
  | (some cells, index) => (some cells, removeSlot (cells.getValue rowIdx) rowIdx index)

theorem unindex_eq (val : SqlValue) (row : Nat) (tbl : ColumnarTable) :
    tbl.unindex col val row = { tbl with
      colIndexes := update tbl.colIndexes col
        (removeSlot val row (tbl.colIndexes col)) } := by
  have kept : tbl = { tbl with
      colIndexes := update tbl.colIndexes col (tbl.colIndexes col) } := by
    rw [update_eq_self]
  unfold unindex removeSlot
  cases sqlValueIndexKey val with
  | none => exact kept
  | some key =>
    cases indexed : tbl.colIndexes col with
    | none =>
      rw [indexed] at kept
      exact kept
    | some ents =>
      rw [indexed] at kept
      cases listed : ents key with
      | none =>
        simp only [listed]
        exact kept
      | some slots => simp [listed]

theorem index_eq (val : SqlValue) (row : Nat) (tbl : ColumnarTable) :
    tbl.index col val row = { tbl with
      colIndexes := update tbl.colIndexes col
        (addSlot val row (tbl.colIndexes col)) } := by
  unfold index addSlot
  cases sqlValueIndexKey val with
  | none =>
    rw [update_eq_self]
  | some key => rfl

/-- The table with the entry of one column replaced. -/
def putEntry (name : String) (ent : Entry) (tbl : ColumnarTable) : ColumnarTable :=
  { tbl with
    columns := update tbl.columns name ent.1
    colIndexes := update tbl.colIndexes name ent.2 }

section
variable (row : RelationalRow) (rowIdx : Nat) (tbl : ColumnarTable) (col : ColumnDefinition)

theorem updateCell_eq : updateCell row rowIdx tbl col =
    tbl.putEntry col.name (updateEntry (cellOf row col) rowIdx (tbl.entry col.name)) := by
  unfold updateCell entry
  cases stored : tbl.columns col.name with
  | none => simp [updateEntry, putEntry, ← stored]
  | some cells => simp [unindex_eq, index_eq, updateEntry, putEntry]

theorem appendCell_eq : appendCell row rowIdx tbl col =
    tbl.putEntry col.name (appendEntry (cellOf row col) rowIdx (tbl.entry col.name)) := by
  unfold appendCell entry
  cases stored : tbl.columns col.name with
  | none => simp [appendEntry, putEntry, ← stored]
  | some cells => simp [index_eq, appendEntry, putEntry]

theorem clearCell_eq : clearCell rowIdx tbl col =
    tbl.putEntry col.name (clearEntry rowIdx (tbl.entry col.name)) := by
  unfold clearCell entry
  cases stored : tbl.columns col.name with
  | none => simp [clearEntry, putEntry, ← stored]
  | some cells => simp [unindex_eq, clearEntry, putEntry, ← stored]

end
end ColumnarTable
end HoloSphere.Relational

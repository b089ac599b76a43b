import HoloSphere.Relational.Sheet
import Mathlib.Data.List.Induction

/-! # A table as a map from keys to rows

The rows that `iter_rows` returns, compared with the finite map that the same writes
build.  They agree after every call exactly as long as no row with a Null cell is
written: the columns have no place for a Null.
-/

namespace HoloSphere.Relational
open Program Function Option ColumnarTable
open List hiding map map_eq_map

inductive TableOp where
  | insertOrUpdate (pk : String) (row : RelationalRow) (ver : Nat)
  | delete (pk : String) (ver : Nat)

/-- The finite map: which row each key has. -/
abbrev RowMap := String → Option RelationalRow

namespace TableOp

def onTable (tbl : ColumnarTable) : TableOp → ColumnarTable
  | .insertOrUpdate pk row ver => tbl.insertOrUpdate pk row ver
  | .delete pk _ => tbl.delete pk

def onSheet (sheet : Sheet) : TableOp → Sheet
  | .insertOrUpdate pk row _ => sheet.put pk row
  | .delete pk _ => sheet.erase pk

def onMap (map : RowMap) : TableOp → RowMap
  | .insertOrUpdate pk row _ => update map pk (some row)
  | .delete pk _ => update map pk none

/-- The cells of the row are of the types of their columns, or Null. -/
def WellTyped (schema : TableSchema) : TableOp → Prop
  | .insertOrUpdate _ row _ => ∀ col ∈ schema.columns, cellOf row col = .null ∨
        col.dataType.admits (cellOf row col) = true
  | .delete .. => True

/-- No cell of the row is Null or left out. -/
def WithoutNull (schema : TableSchema) : TableOp → Prop
  | .insertOrUpdate _ row _ => ∀ col ∈ schema.columns, cellOf row col ≠ .null
  | .delete .. => True

end TableOp

namespace ColumnarTable

def run (schema : TableSchema) (ops : List TableOp) : ColumnarTable :=
  ops.foldl TableOp.onTable (.new schema)

end ColumnarTable

def RowMap.run (ops : List TableOp) : RowMap := ops.foldl TableOp.onMap fun _ => none

def Sheet.run (ops : List TableOp) : Sheet := ops.foldl TableOp.onSheet []

/-- How a row of the map is to be read back: each column of the schema has the value that
    was written for it, Null if none was. -/
def readBack (schema : TableSchema) (row : RelationalRow) : RelationalRow :=
  ⟨fun name =>
    if name ∈ schema.columns.map ColumnDefinition.name then some ((row.values name).getD .null)
    else none⟩

theorem readBack_values {schema : TableSchema}
    (known : name ∈ schema.columns.map ColumnDefinition.name) :
    (readBack schema row).values name = some ((row.values name).getD .null) := if_pos known

/-- The rows of the table are the rows of the map, one for each key. -/
def ColumnarTable.Shows (tbl : ColumnarTable) (map : RowMap) : Prop :=
  ∃ keys : List String, keys.Nodup ∧ (∀ key, key ∈ keys ↔ (map key).isSome) ∧
    tbl.iterRows.map some = keys.map fun key => (map key).map (readBack tbl.schema)

namespace SheetRow

/-- The line holds what the map has for its key: nothing if it is deleted, the same cells
    if it is not. -/
def Holds (schema : TableSchema) (line : SheetRow) (row : Option RelationalRow) : Prop :=
  line.isDeleted = row.isNone ∧ ∀ written, row = some written →
    ∀ col ∈ schema.columns, line.cells col = cellOf written col

end SheetRow

namespace Sheet

structure Mirrors (schema : TableSchema) (sheet : Sheet) (map : RowMap) : Prop where
  lines : ∀ line ∈ sheet, line.Holds schema (map line.key)
  absent : ∀ pk, pk ∉ sheet.keys → map pk = none

variable {sheet : Sheet} {schema : TableSchema}

/-- With distinct keys, a change at the slot of a key leaves the lines of all others. -/
theorem mem_modify (uniq : sheet.keys.Nodup) (found : sheet.slotOf pk = some slot)
    (mem : line ∈ sheet.modify slot change) :
    (line ∈ sheet ∧ line.key ≠ pk) ∨ ∃ old ∈ sheet, old.key = pk ∧ line = change old := by
  obtain ⟨pos, here⟩ := mem_iff_getElem?.mp mem
  rw [getElem?_modify] at here
  cases stored : sheet[pos]? with
  | none => simp [stored] at here
  | some old =>
    have hin := mem_of_getElem? stored
    have keyed : sheet.keys[pos]? = some old.key := by
      rw [keys, getElem?_map, stored]
      rfl
    have atSlot := getElem?_of_slotOf found
    by_cases same : slot = pos
    · subst same
      simp only [stored, if_true, map_eq_map, map_some, some.injEq] at here
      rw [atSlot, some.injEq] at keyed
      exact .inr ⟨old, hin, keyed.symm, here.symm⟩
    · simp only [stored, if_neg same, map_eq_map, map_some, some.injEq] at here
      subst here
      refine .inl ⟨hin, fun clash => same ?_⟩
      rw [clash] at keyed
      obtain ⟨bound, -⟩ := List.getElem?_eq_some_iff.mp atSlot
      exact (getElem?_inj bound uniq).mp (atSlot.trans keyed.symm)

theorem Mirrors.modify (h : Mirrors schema sheet map) (uniq : sheet.keys.Nodup)
    (found : sheet.slotOf pk = some slot) (keyed : ∀ old, (change old).key = old.key)
    (held : ∀ old ∈ sheet, (change old).Holds schema row) :
    Mirrors schema (sheet.modify slot change) (update map pk row) where
  lines line mem := by
    rcases mem_modify uniq found mem with ⟨kept, apart⟩ | ⟨old, hin, own, rfl⟩
    · rw [update_of_ne apart]
      exact h.lines line kept
    · rw [keyed, own, update_self]
      exact held old hin
  absent other unknown := by
    rw [keys_modify keyed] at unknown
    have known : pk ∈ sheet.keys := mem_of_getElem? (getElem?_of_slotOf found)
    have apart : other ≠ pk := by
      rintro rfl
      exact unknown known
    rw [update_of_ne apart]
    exact h.absent other unknown

variable
  (typed : ∀ col ∈ schema.columns, col.dataType.admits (cellOf row col) = true)

include typed in
theorem Mirrors.put (h : Mirrors schema sheet map) (uniq : sheet.keys.Nodup) :
    Mirrors schema (sheet.put pk row) (update map pk (some row)) := by
  unfold Sheet.put
  cases found : sheet.slotOf pk with
  | some slot =>
    refine h.modify uniq found (fun _ => rfl) fun old _ => ⟨rfl, ?_⟩
    rintro _ ⟨⟩ col mem
    simp [SheetRow.written, SqlType.overwrite, typed col mem]
  | none =>
    have unknown := slotOf_eq_none.mp found
    constructor
    · intro line mem
      rcases mem_append.mp mem with kept | last
      · have apart : line.key ≠ pk := by
          rintro rfl
          exact unknown (mem_map_of_mem kept)
        rw [update_of_ne apart]
        exact h.lines line kept
      · rw [mem_singleton.mp last, SheetRow.fresh, update_self]
        refine ⟨rfl, ?_⟩
        rintro _ ⟨⟩ col mem
        simp [SqlType.fill, typed col mem]
    · intro other outside
      simp only [keys, map_append, mem_append, not_or] at outside
      have apart : other ≠ pk := by
        rintro rfl
        exact outside.2 (mem_singleton.mpr rfl)
      rw [update_of_ne apart]
      exact h.absent other outside.1

theorem Mirrors.erase (h : Mirrors schema sheet map) (uniq : sheet.keys.Nodup) :
    Mirrors schema (sheet.erase pk) (update map pk none) := by
  unfold Sheet.erase
  cases found : sheet.slotOf pk with
  | some slot =>
    refine h.modify uniq found (fun _ => rfl) fun old _ => ⟨rfl, ?_⟩
    rintro _ ⟨⟩
  | none =>
    have gone := h.absent pk (slotOf_eq_none.mp found)
    rw [← gone, update_eq_self]
    exact h

end Sheet

namespace ColumnarTable
variable {schema : TableSchema} (uniq : (schema.columns.map ColumnDefinition.name).Nodup)
include uniq in
theorem readRow_values (mem : col ∈ schema.columns) :
    (readRow schema line).values col.name = some (line.cells col) :=
  foldl_local (fun (values : String → Option SqlValue) name => values name)
    ColumnDefinition.name (fun col _ => some (line.cells col))
    (fun _ _ => update_self ..)
    (fun _ _ _ apart => update_of_ne apart ..) uniq _ mem

theorem readRow_values_other (absent : name ∉ schema.columns.map ColumnDefinition.name) :
    (readRow schema line).values name = none := by
  have elsewhere : ∀ col ∈ schema.columns, name ≠ col.name := by
    rintro col mem rfl
    exact absent (mem_map_of_mem mem)
  exact foldl_elsewhere (fun (values : String → Option SqlValue) name => values name)
    ColumnDefinition.name (fun _ _ _ apart => update_of_ne apart ..) elsewhere _

include uniq in
theorem readRow_eq_readBack {line : SheetRow}
    (same : ∀ col ∈ schema.columns, line.cells col = cellOf row col) :
    readRow schema line = readBack schema row := by
  suffices values : (readRow schema line).values = (readBack schema row).values from
    congrArg RelationalRow.mk values
  funext name
  by_cases known : name ∈ schema.columns.map ColumnDefinition.name
  · obtain ⟨col, mem, rfl⟩ := mem_map.mp known
    rw [readRow_values uniq mem, same col mem, readBack_values known, cellOf]
  · rw [readRow_values_other known]
    exact (if_neg known).symm

theorem Refines.shows (h : Refines tbl sheet) (mirrors : sheet.Mirrors tbl.schema map) :
    tbl.Shows map := by
  let live := sheet.filter fun line => !line.isDeleted
  refine ⟨live.map SheetRow.key, h.keys.sublist (filter_sublist.map _), ?_, ?_⟩
  · intro key
    constructor
    · intro mem
      obtain ⟨line, hin, rfl⟩ := mem_map.mp mem
      obtain ⟨stored, alive⟩ := mem_filter.mp hin
      have same := (mirrors.lines line stored).1
      cases row : map line.key with
      | none => simp [row, same] at alive
      | some _ => rfl
    · intro present
      have known : key ∈ sheet.keys := by
        by_contra unknown
        rw [mirrors.absent key unknown] at present
        cases present
      obtain ⟨line, hin, rfl⟩ := mem_map.mp known
      refine mem_map.mpr ⟨line, mem_filter.mpr ⟨hin, ?_⟩, rfl⟩
      rw [(mirrors.lines line hin).1, not_isNone]
      exact present
  · rw [h.iterRows, List.map_filterMap, List.map_map, ← List.filterMap_eq_map,
      List.filterMap_filter]
    apply filterMap_congr
    intro line hin
    obtain ⟨alive, same⟩ := mirrors.lines line hin
    cases row : map line.key with
    | none =>
      rw [row] at alive
      simp [readLive, alive]
    | some written =>
      simp [readLive, alive, row, readRow_eq_readBack h.distinct (same written row)]

/-- Null is never read back. -/
theorem Refines.iterRows_ne_null (h : Refines tbl sheet) (mem : row ∈ tbl.iterRows)
    (known : col ∈ tbl.schema.columns) : row.values col.name ≠ some .null := by
  rw [h.iterRows] at mem
  obtain ⟨line, hin, live⟩ := mem_filterMap.mp mem
  obtain ⟨vec, -, typed, cells⟩ := h.cells col known
  have held : line.cells col ∈ vec.toList := by
    rw [cells]
    exact mem_map_of_mem hin
  simp only [readLive, ite_none_left_eq_some, some.injEq] at live
  rw [← live.2, readRow_values h.distinct known]
  intro read
  exact SqlType.ne_null_of_admits (TypedColumnVector.admits_of_mem_toList typed held)
    (some.inj read)

theorem Refines.not_shows (h : Refines tbl sheet) (stored : map pk = some row)
    (mem : col ∈ tbl.schema.columns) (null : cellOf row col = .null) :
    ¬ tbl.Shows map := by
  rintro ⟨keys, -, present, rows⟩
  have listed : pk ∈ keys := (present pk).mpr (by rw [stored]; rfl)
  have shown : some (readBack tbl.schema row) ∈ tbl.iterRows.map some := by
    rw [rows]
    exact mem_map.mpr ⟨pk, listed, by rw [stored]; rfl⟩
  obtain ⟨read, hin, readEq⟩ := mem_map.mp shown
  cases readEq
  apply h.iterRows_ne_null hin mem
  rw [readBack_values (mem_map_of_mem mem)]
  exact congrArg some null

include uniq in
theorem refines_run (ops : List TableOp) :
    (run schema ops).schema = schema ∧ Refines (run schema ops) (Sheet.run ops) := by
  induction ops using reverseRecOn with
  | nil => exact ⟨rfl, Refines.new uniq⟩
  | append_singleton earlier op ih =>
    obtain ⟨same, refines⟩ := ih
    simp only [run, Sheet.run, foldl_append, foldl_cons, foldl_nil]
    cases op with
    | insertOrUpdate pk row ver =>
      exact ⟨(schema_insertOrUpdate ..).trans same, refines.insertOrUpdate pk row ver⟩
    | delete pk ver => exact ⟨(schema_delete ..).trans same, refines.delete pk⟩

/-- The table shows the map after each call exactly if no row with a Null cell is
    written. -/
theorem shows_map_iff_no_null (schema : TableSchema)
    (uniq : (schema.columns.map ColumnDefinition.name).Nodup) (ops : List TableOp)
    (typed : ∀ op ∈ ops, op.WellTyped schema) :
    (∀ calls, (run schema (ops.take calls)).Shows (RowMap.run (ops.take calls))) ↔
      ∀ op ∈ ops, op.WithoutNull schema := by
  apply forall_take_iff (fun ops => (Sheet.run ops).Mirrors schema (RowMap.run ops))
    (fun ops => (run schema ops).Shows (RowMap.run ops))
  · exact ⟨fun _ mem => (nomatch mem), fun _ _ => rfl⟩
  · intro earlier mirrors
    obtain ⟨same, refines⟩ := refines_run uniq earlier
    exact refines.shows (by rwa [same])
  · intro earlier op mem mirrors complete
    have keys := (refines_run uniq earlier).2.keys
    rw [Sheet.run, RowMap.run, foldl_append, foldl_append]
    cases op with
    | insertOrUpdate pk row ver =>
      exact mirrors.put (fun col hin => (typed _ mem col hin).resolve_left (complete col hin)) keys
    | delete pk ver => exact mirrors.erase keys
  · intro earlier op _ shows
    cases op with
    | delete pk ver => trivial
    | insertOrUpdate pk row ver =>
      intro col known null
      obtain ⟨same, refines⟩ := refines_run uniq (earlier ++ [.insertOrUpdate pk row ver])
      rw [← same] at known
      have stored : RowMap.run (earlier ++ [.insertOrUpdate pk row ver]) pk = some row := by
        rw [RowMap.run, foldl_append]
        exact update_self ..
      exact refines.not_shows stored known null shows

def orderSchema : TableSchema where
  name := "orders"
  columns := [⟨"id", .integer, true, false, none⟩, ⟨"note", .text, false, true, none⟩]
  primaryKeyColumn := "id"

def orderRow (id : Int) (note : Option SqlValue) : RelationalRow :=
  ⟨fun name => if name = "id" then some (.integer id) else if name = "note" then note else none⟩

def orderCalls : List TableOp :=
  [.insertOrUpdate "1" (orderRow 1 (some (.text "gift"))) 2,
    .insertOrUpdate "2" (orderRow 2 (some (.text "late"))) 3,
    .delete "1" 4,
    .insertOrUpdate "1" (orderRow 1 (some (.text "again"))) 5]

theorem order_calls_show_map : (∀ op ∈ orderCalls, op.WellTyped orderSchema) ∧
      ∀ calls, (run orderSchema (orderCalls.take calls)).Shows
        (RowMap.run (orderCalls.take calls)) := by
  have typed : ∀ op ∈ orderCalls, op.WellTyped orderSchema := by
    simp [orderCalls, TableOp.WellTyped, orderSchema, orderRow, cellOf, SqlType.admits]
  refine ⟨typed, (shows_map_iff_no_null orderSchema (by decide) orderCalls typed).mpr ?_⟩
  simp [orderCalls, TableOp.WithoutNull, orderSchema, orderRow, cellOf]

/-- An order without a note reads back with an empty one, and a note that is set to Null
    stays as it was. -/
theorem null_note_is_not_kept :
    (∀ op ∈ [TableOp.insertOrUpdate "1" (orderRow 1 none) 2], op.WellTyped orderSchema) ∧
    (run orderSchema [.insertOrUpdate "1" (orderRow 1 none) 2]).iterRows.map (·.values "note") =
      [some (.text "")] ∧
    (run orderSchema [.insertOrUpdate "1" (orderRow 1 (some (.text "gift"))) 2,
      .insertOrUpdate "1" (orderRow 1 (some .null)) 3]).iterRows.map (·.values "note") =
      [some (.text "gift")] ∧
    ¬ (run orderSchema [.insertOrUpdate "1" (orderRow 1 none) 2]).Shows
      (RowMap.run [.insertOrUpdate "1" (orderRow 1 none) 2]) := by
  refine ⟨?_, by decide, by decide, ?_⟩
  · simp [TableOp.WellTyped, orderSchema, orderRow, cellOf, SqlType.admits]
  · have uniq : (orderSchema.columns.map ColumnDefinition.name).Nodup := by decide
    obtain ⟨same, refines⟩ := refines_run uniq [.insertOrUpdate "1" (orderRow 1 none) 2]
    have stored : RowMap.run [.insertOrUpdate "1" (orderRow 1 none) 2] "1" =
        some (orderRow 1 none) := by
      simp [RowMap.run, TableOp.onMap]
    have note : (⟨"note", .text, false, true, none⟩ : ColumnDefinition) ∈ orderSchema.columns := by
      decide
    exact refines.not_shows stored note rfl

end ColumnarTable
end HoloSphere.Relational

import HoloSphere.Relational.Cells

/-! # Tables as sheets of rows

A table's columns, key map and tombstones seen row by row: a sheet lists the rows in
the order of their slots, each with its key, whether it is deleted, and the value of
every column.  Insertion, update and deletion of the table are refined from those of
the sheet, given that no two columns have the same name.
-/

namespace HoloSphere.Relational
open Program Function List ColumnDefinition TypedColumnVector

structure SheetRow where
  key : String
  isDeleted : Bool
  cells : ColumnDefinition → SqlValue

namespace SheetRow

def fresh (pk : String) (row : RelationalRow) : SheetRow :=
  ⟨pk, false, fun col => col.dataType.fill (ColumnarTable.cellOf row col)⟩

def written (row : RelationalRow) (old : SheetRow) : SheetRow :=
  { old with
    isDeleted := false
    cells := fun col =>
      col.dataType.overwrite (old.cells col) (ColumnarTable.cellOf row col) }

def deleted (old : SheetRow) : SheetRow := { old with isDeleted := true }

end SheetRow

abbrev Sheet := List SheetRow

namespace Sheet

def keys (sheet : Sheet) : List String := sheet.map SheetRow.key

def slotOf (pk : String) (sheet : Sheet) : Option Nat := sheet.keys.idxOf? pk

def put (pk : String) (row : RelationalRow) (sheet : Sheet) : Sheet :=
  match sheet.slotOf pk with
  | some slot => sheet.modify slot (SheetRow.written row)
  | none => sheet ++ [.fresh pk row]

def erase (pk : String) (sheet : Sheet) : Sheet :=
  match sheet.slotOf pk with
  | some slot => sheet.modify slot SheetRow.deleted
  | none => sheet

/-- A change of one element is a change of its image. -/
theorem map_modify {α β : Type} {f : α → α} {g : α → β} {h : β → β} (list : List α)
    (same : ∀ x, g (f x) = h (g x)) : (list.modify slot f).map g = (list.map g).modify slot h := by
  apply ext_getElem?
  intro pos
  simp only [getElem?_map, getElem?_modify]
  cases list[pos]? with
  | none => rfl
  | some x => by_cases here : slot = pos <;> simp [here, same]

theorem map_modify_same {α β : Type} {f : α → α} {g : α → β} (list : List α)
    (same : ∀ x, g (f x) = g x) : (list.modify slot f).map g = list.map g := by
  rw [map_modify list (h := id) same, modify_id]

variable {sheet : Sheet}

theorem keys_modify {f : SheetRow → SheetRow} (same : ∀ row, (f row).key = row.key) :
    keys (sheet.modify slot f) = sheet.keys := map_modify_same sheet same

theorem slotOf_eq_none : sheet.slotOf pk = none ↔ pk ∉ sheet.keys := idxOf?_eq_none_iff

theorem getElem?_of_slotOf (found : sheet.slotOf pk = some slot) : sheet.keys[slot]? = some pk := by
  obtain ⟨hin, here, -⟩ := idxOf?_eq_some_iff.mp found
  rw [getElem?_eq_getElem hin, here]

theorem getElem?_of_found (found : sheet.slotOf pk = some slot) :
    ∃ line, sheet[slot]? = some line := by
  have keyed := getElem?_of_slotOf found
  rw [keys, getElem?_map] at keyed
  obtain ⟨line, here, -⟩ := Option.map_eq_some_iff.mp keyed
  exact ⟨line, here⟩

theorem slotOf_append : slotOf pk (sheet ++ [last]) =
      (sheet.slotOf pk).or (if last.key = pk then some sheet.length else none) := by
  unfold slotOf keys idxOf?
  rw [map_append, findIdx?_append]
  congr 1
  by_cases same : last.key = pk <;> simp [same]

end Sheet

namespace ColumnarTable

/-- The table stores exactly the rows of the sheet. -/
structure Refines (tbl : ColumnarTable) (sheet : Sheet) : Prop where
  distinct : (tbl.schema.columns.map name).Nodup
  keys : sheet.keys.Nodup
  index : ∀ pk, tbl.pkIndex pk = sheet.slotOf pk
  deleted : tbl.isDeleted = sheet.map SheetRow.isDeleted
  cells : ∀ col ∈ tbl.schema.columns, ∃ vec, tbl.columns col.name = some vec ∧
    vec.ofType col.dataType = true ∧ vec.toList = sheet.map fun row => row.cells col

section

/-- What a call leaves of the frame, and what it does to the entry of each column. -/
structure Writes (pre after : ColumnarTable) (pkIndex : String → Option Nat)
    (isDeleted : List Bool) (change : ColumnDefinition → Entry → Entry) : Prop where
  schema : after.schema = pre.schema
  pkIndex : after.pkIndex = pkIndex
  isDeleted : after.isDeleted = isDeleted
  entries : ∀ col ∈ pre.schema.columns, after.entry col.name = change col (pre.entry col.name)
  others : ∀ name, (∀ col ∈ pre.schema.columns, name ≠ col.name) → after.entry name = pre.entry name

variable {tbl : ColumnarTable}

section
variable {step : ColumnarTable → ColumnDefinition → ColumnarTable}
  {change : ColumnDefinition → Entry → Entry}
  (puts : ∀ tbl col, step tbl col = tbl.putEntry col.name (change col (tbl.entry col.name)))

include puts

theorem frame_columns : (tbl.schema.columns.foldl step tbl).frame = tbl.frame :=
  foldl_keeps (fun tbl col => by rw [puts]; rfl) _ _

theorem writes_columns (uniq : (tbl.schema.columns.map name).Nodup) :
    Writes tbl (tbl.schema.columns.foldl step tbl) tbl.pkIndex tbl.isDeleted change := by
  have there : ∀ (tbl : ColumnarTable) (col : ColumnDefinition) other, other ≠ col.name →
      (step tbl col).entry other = tbl.entry other := by
    intro tbl col other apart
    rw [puts]
    simp [entry, putEntry, apart]
  have kept : _ = tbl.frame := frame_columns puts
  simp only [frame, Prod.mk.injEq] at kept
  refine ⟨kept.1, kept.2.1, kept.2.2.1, fun col mem => ?_,
    fun _ absent => foldl_elsewhere entry name there absent tbl⟩
  refine foldl_local entry name change (fun tbl col => ?_) there uniq tbl mem
  rw [puts]
  simp [entry, putEntry]

end

section
variable (row : RelationalRow) (ver : Nat) (uniq : (tbl.schema.columns.map name).Nodup)
include uniq

theorem writes_update (found : tbl.pkIndex pk = some rowIdx) :
    Writes tbl (tbl.insertOrUpdate pk row ver) tbl.pkIndex (tbl.isDeleted.set rowIdx false)
      fun col => updateEntry (cellOf row col) rowIdx := by
  have kept := writes_columns (updateCell_eq row rowIdx) uniq
  unfold insertOrUpdate
  rw [found]
  exact { kept with isDeleted := congrArg (·.set rowIdx false) kept.isDeleted }

theorem writes_append (absent : tbl.pkIndex pk = none) : Writes tbl (tbl.insertOrUpdate pk row ver)
      (update tbl.pkIndex pk (some tbl.isDeleted.length))
      (tbl.isDeleted ++ [false])
      fun col => appendEntry (cellOf row col) tbl.isDeleted.length := by
  have kept := writes_columns (appendCell_eq row tbl.isDeleted.length) uniq
  unfold insertOrUpdate
  rw [absent]
  exact { kept with
    pkIndex := congrArg (update · pk _) kept.pkIndex
    isDeleted := congrArg (· ++ [false]) kept.isDeleted }

theorem writes_delete (found : tbl.pkIndex pk = some rowIdx) :
    Writes tbl (tbl.delete pk) tbl.pkIndex (tbl.isDeleted.set rowIdx true)
      fun _ => clearEntry rowIdx := by
  unfold delete
  rw [found]
  let marked := { tbl with isDeleted := tbl.isDeleted.set rowIdx true }
  have kept : Writes marked _ _ _ _ := writes_columns (clearCell_eq rowIdx) uniq
  exact { kept with }

end
end

theorem schema_insertOrUpdate (tbl : ColumnarTable) (pk : String) (row : RelationalRow)
    (ver : Nat) : (tbl.insertOrUpdate pk row ver).schema = tbl.schema := by
  unfold insertOrUpdate
  cases tbl.pkIndex pk with
  | some rowIdx => exact congrArg Prod.fst (frame_columns (updateCell_eq row rowIdx))
  | none => exact congrArg Prod.fst (frame_columns (appendCell_eq row _))

theorem schema_delete (tbl : ColumnarTable) (pk : String) :
    (tbl.delete pk).schema = tbl.schema := by
  unfold delete
  cases tbl.pkIndex pk with
  | none => rfl
  | some rowIdx => exact congrArg Prod.fst (frame_columns (clearCell_eq rowIdx))

theorem Refines.new {schema : TableSchema} (uniq : (schema.columns.map name).Nodup) :
    Refines (ColumnarTable.new schema) [] where
  distinct := uniq
  keys := .nil
  index _ := rfl
  deleted := rfl
  cells col mem := by
    have stored : (ColumnarTable.new schema).columns col.name =
        some (TypedColumnVector.new col.dataType) :=
      foldl_local (fun (columns : String → Option TypedColumnVector) name => columns name)
        name
        (fun col _ => some (TypedColumnVector.new col.dataType))
        (fun _ _ => update_self ..)
        (fun _ _ _ apart => update_of_ne apart ..) uniq _ mem
    exact ⟨_, stored, new_ofType _, new_toList _⟩

theorem Refines.length (h : Refines tbl sheet) : tbl.isDeleted.length = sheet.length := by
  rw [h.deleted, length_map]

open Sheet

/-- One line is changed, and of the frame only its mark. -/
theorem Refines.modify {change : SheetRow → SheetRow} (h : Refines tbl sheet)
    (writes : Writes tbl res tbl.pkIndex (tbl.isDeleted.set slot flag) changes)
    (keyed : ∀ row, (change row).key = row.key) (flagged : ∀ row, (change row).isDeleted = flag)
    (cells : ∀ col ∈ tbl.schema.columns, ∃ vec, res.columns col.name = some vec ∧
      vec.ofType col.dataType = true ∧
      vec.toList = (sheet.modify slot change).map fun row => row.cells col) :
    Refines res (sheet.modify slot change) where
  distinct := writes.schema ▸ h.distinct
  keys := (keys_modify keyed).symm ▸ h.keys
  index other := by rw [writes.pkIndex, h.index, slotOf, slotOf, keys_modify keyed]
  deleted := by
    rw [writes.isDeleted, h.deleted, set_eq_modify]
    exact (map_modify sheet flagged).symm
  cells := writes.schema ▸ cells

theorem Refines.insertOrUpdate (h : Refines tbl sheet) (pk : String) (row : RelationalRow)
    (ver : Nat) : Refines (tbl.insertOrUpdate pk row ver) (sheet.put pk row) := by
  cases found : sheet.slotOf pk with
  | some slot =>
    simp only [put, found]
    have writes := writes_update row ver h.distinct ((h.index pk).trans found)
    refine h.modify writes (fun _ => rfl) (fun _ => rfl) fun col mem => ?_
    obtain ⟨vec, stored, typed, cells⟩ := h.cells col mem
    have after := writes.entries col mem
    simp only [entry, stored, updateEntry, Prod.mk.injEq] at after
    refine ⟨_, after.1, setValue_ofType typed .., ?_⟩
    rw [setValue_toList typed, cells]
    symm
    exact map_modify sheet fun _ => rfl
  | none =>
    simp only [put, found]
    have writes := writes_append row ver h.distinct ((h.index pk).trans found)
    have absent := slotOf_eq_none.mp found
    constructor
    · rw [writes.schema]
      exact h.distinct
    · rw [Sheet.keys, map_append]
      apply nodup_append.mpr
      refine ⟨h.keys, nodup_singleton _, ?_⟩
      rintro key known _ last rfl
      rw [map_singleton, mem_singleton] at last
      cases last
      exact absent known
    · intro other
      rw [writes.pkIndex, slotOf_append]
      by_cases same : other = pk
      · subst same
        simp [found, h.length, SheetRow.fresh]
      · rw [update_of_ne same, h.index]
        simp [SheetRow.fresh, Ne.symm same]
    · rw [writes.isDeleted, h.deleted, map_append]
      rfl
    · intro col mem
      rw [writes.schema] at mem
      obtain ⟨vec, stored, typed, cells⟩ := h.cells col mem
      have after := writes.entries col mem
      simp only [entry, stored, appendEntry, Prod.mk.injEq] at after
      refine ⟨_, after.1, pushValue_ofType typed _, ?_⟩
      rw [pushValue_toList typed, cells, map_append]
      rfl

theorem Refines.delete (h : Refines tbl sheet) (pk : String) :
    Refines (tbl.delete pk) (sheet.erase pk) := by
  cases found : sheet.slotOf pk with
  | some slot =>
    simp only [erase, found]
    have writes := writes_delete h.distinct ((h.index pk).trans found)
    refine h.modify writes (fun _ => rfl) (fun _ => rfl) fun col mem => ?_
    obtain ⟨vec, stored, typed, cells⟩ := h.cells col mem
    have after := writes.entries col mem
    simp only [entry, stored, clearEntry, Prod.mk.injEq] at after
    refine ⟨vec, after.1, typed, cells.trans ?_⟩
    symm
    exact map_modify_same sheet fun _ => rfl
  | none =>
    have unknown := (h.index pk).trans found
    simp only [erase, found, ColumnarTable.delete, unknown]
    exact h

def readRow (schema : TableSchema) (row : SheetRow) : RelationalRow :=
  ⟨schema.columns.foldl
    (fun values col => update values col.name (some (row.cells col)))
    fun _ => none⟩

def readLive (schema : TableSchema) (row : SheetRow) : Option RelationalRow :=
  if row.isDeleted then none else some (readRow schema row)

theorem bind_modify {sheet : Sheet} (here : sheet[slot]? = some line)
    (change : SheetRow → SheetRow) (f : SheetRow → Option α) :
    (fun other => (sheet.modify slot change)[other]?.bind f) =
      update (fun other => sheet[other]?.bind f) slot (f (change line)) := by
  funext other
  by_cases same : other = slot
  · subst same
    simp [here]
  · simp [Ne.symm same, update_of_ne same]

theorem bind_concat {sheet : Sheet} (f : SheetRow → Option α) :
    (fun other => (sheet ++ [last])[other]?.bind f) =
      update (fun other => sheet[other]?.bind f) sheet.length (f last) := by
  funext other
  by_cases same : other = sheet.length
  · simp [same]
  · rw [update_of_ne same]
    rcases Nat.lt_or_gt_of_ne same with hin | outside
    · rw [getElem?_append_left hin]
    · rw [getElem?_eq_none (by simp; omega), getElem?_eq_none (by omega)]

theorem Refines.getValue (h : Refines tbl sheet) (mem : col ∈ tbl.schema.columns)
    (here : sheet[slot]? = some row) :
    ∃ vec, tbl.columns col.name = some vec ∧ vec.getValue slot = row.cells col := by
  obtain ⟨vec, stored, -, cells⟩ := h.cells col mem
  refine ⟨vec, stored, ?_⟩
  rw [getValue_eq, cells, getElem?_map, here]
  rfl

theorem Refines.getRow (h : Refines tbl sheet) (slot : Nat) :
    tbl.getRow slot = sheet[slot]?.bind (readLive tbl.schema) := by
  unfold ColumnarTable.getRow
  rw [h.deleted, getElem?_map]
  cases here : sheet[slot]? with
  | none => rfl
  | some row =>
    simp only [Option.map_some, Option.bind_some, readLive]
    cases row.isDeleted with
    | true => rfl
    | false =>
      simp only [readRow, Bool.false_eq_true, if_false, Option.some.injEq, RelationalRow.mk.injEq]
      apply foldl_ext
      intro values col mem
      obtain ⟨vec, stored, val⟩ := h.getValue mem here
      simp [stored, val]

theorem filterMap_range_getElem? {α β : Type} (list : List α) (f : α → Option β) :
    ((range list.length).filterMap fun pos => list[pos]?.bind f) = list.filterMap f := by
  induction list with
  | nil => rfl
  | cons head tail ih =>
    rw [length_cons, range_succ_eq_map, filterMap_cons, filterMap_map, filterMap_cons, ← ih]
    rfl

/-- The rows of the table are those of the sheet that are not deleted, in its order. -/
theorem Refines.iterRows (h : Refines tbl sheet) :
    tbl.iterRows = sheet.filterMap (readLive tbl.schema) := by
  unfold ColumnarTable.iterRows
  rw [h.length, ← filterMap_range_getElem? sheet]
  apply filterMap_congr
  intro slot _
  exact h.getRow slot

end ColumnarTable
end HoloSphere.Relational

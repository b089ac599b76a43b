import HoloSphere.Relational.TableMap

/-! # The secondary index

The lists of `col_indexes` compared with the cells they stand for.  An insert takes the
keys of its index entries from the incoming row, while the cells may hold something
else: the zero of the type, or the old value.  The lists are right after every call
exactly as long as no Null is written to a column that is indexed.
-/

namespace HoloSphere.Relational
open ColumnIndex Function List SqlType

theorem digits_inj (same : Nat.toDigits 10 m = Nat.toDigits 10 n) : m = n := by
  simpa using congrArg (Nat.ofDigitChars 10 · 0) same

/-- A sign is not a digit, and the digits of a number give the number. -/
theorem int_letters_inj {num other : Int} (same : num.repr.toList = other.repr.toList) :
    num = other := by
  have letters : ∀ num : Int, num.repr.toList = if 0 ≤ num then Nat.toDigits 10 num.toNat
      else '-' :: Nat.toDigits 10 (-num).toNat := by
    intro num
    rw [Int.repr_eq_if]
    split <;> simp [Nat.repr_eq_ofList_toDigits]
  have unsigned : ∀ n rest, Nat.toDigits 10 n ≠ '-' :: rest := by
    intro n rest eq
    have digit := Nat.isDigit_of_mem_toDigits (by decide) (by decide)
      (eq ▸ mem_cons_self : '-' ∈ Nat.toDigits 10 n)
    cases digit
  rw [letters, letters] at same
  split at same <;> split at same
  · have := digits_inj same
    omega
  · exact absurd same (unsigned _ _)
  · exact absurd same.symm (unsigned _ _)
  · have := digits_inj (cons.inj same).2
    omega

/-- Two values with one key are the same value: the tags tell the types apart. -/
theorem sqlValueIndexKey_inj (keyed : sqlValueIndexKey val = some key)
    (same : sqlValueIndexKey other = some key) :
    val = other := by
  have letters := congrArg (Option.map String.toList) (keyed.trans same.symm)
  cases val <;> cases other <;>
    simp [sqlValueIndexKey, ToString.toString] at keyed same letters ⊢
  case integer.integer => exact int_letters_inj letters
  case text.text => exact String.toList_inj.mp letters
  case boolean.boolean a b => cases a <;> cases b <;> first | rfl | cases letters

namespace SqlType

theorem exists_key {type : SqlType} (typed : type.admits val = true) (indexed : type ≠ .float) :
    ∃ key, sqlValueIndexKey val = some key := by
  cases type <;> cases val <;> first | cases typed; done | exact ⟨_, rfl⟩ | exact absurd rfl indexed

theorem key_of_float (typed : float.admits val = true) : sqlValueIndexKey val = none := by
  cases val <;> first | cases typed; done | rfl

/-- A cell takes the key of the value that is written to it, unless that is a Null in a
    column with an index. -/
theorem key_of_written {type : SqlType} (typed : type.admits cell = true)
    (written : cell = val ∨ val = .null ∧ type = .float) :
    sqlValueIndexKey cell = sqlValueIndexKey val := by
  rcases written with rfl | ⟨rfl, rfl⟩
  · rfl
  · exact key_of_float typed

end SqlType

namespace ColumnIndex

/-- The lists of the index are those of a map from slots to keys. -/
def Tracks (idx : Option ColumnIndex) (keyAt : Nat → Option String) : Prop :=
  ∀ key, (slotsUnder key idx).Nodup ∧ ∀ slot, slot ∈ slotsUnder key idx ↔ keyAt slot = some key

theorem Tracks.empty : Tracks none fun _ => none := by
  intro key
  simp [slotsUnder]

theorem Tracks.removeSlot (h : Tracks idx keyAt)
    (under : ∀ key, keyAt slot = some key → sqlValueIndexKey val = some key) :
    Tracks (removeSlot val slot idx) (update keyAt slot none) := by
  intro key
  obtain ⟨nodup, listed⟩ := h key
  rw [slotsUnder_removeSlot]
  by_cases own : sqlValueIndexKey val = some key
  · rw [if_pos own]
    refine ⟨nodup.filter _, fun other => ?_⟩
    by_cases same : other = slot
    · simp [same]
    · simp [same, listed]
  · rw [if_neg own]
    refine ⟨nodup, fun other => ?_⟩
    by_cases same : other = slot
    · subst same
      simp only [listed, update_self, reduceCtorEq, iff_false]
      exact fun found => own (under key found)
    · rw [update_of_ne same, listed]

theorem Tracks.addSlot (h : Tracks idx keyAt) (free : keyAt slot = none) (val : SqlValue) :
    Tracks (addSlot val slot idx) (update keyAt slot (sqlValueIndexKey val)) := by
  intro key
  obtain ⟨nodup, listed⟩ := h key
  have unlisted : slot ∉ slotsUnder key idx := by
    simp [listed, free]
  rw [slotsUnder_addSlot]
  by_cases own : sqlValueIndexKey val = some key
  · rw [if_pos own]
    refine ⟨concat_eq_append ▸ nodup.concat unlisted, fun other => ?_⟩
    by_cases same : other = slot
    · simp [same, own]
    · simp [same, listed]
  · rw [if_neg own]
    refine ⟨nodup, fun other => ?_⟩
    by_cases same : other = slot
    · subst same
      simp [unlisted, own]
    · rw [update_of_ne same, listed]

end ColumnIndex

namespace Sheet

def lineKey (col : ColumnDefinition) (line : SheetRow) : Option String :=
  if line.isDeleted then none else sqlValueIndexKey (line.cells col)

def keyAt (col : ColumnDefinition) (sheet : Sheet) (slot : Nat) : Option String :=
  sheet[slot]?.bind (lineKey col)

theorem keyAt_eq (here : sheet[slot]? = some line) : keyAt col sheet slot = lineKey col line := by
  rw [keyAt, here, Option.bind_some]

theorem keyAt_modify (here : sheet[slot]? = some line) (change : SheetRow → SheetRow) :
    keyAt col (sheet.modify slot change) =
      update (keyAt col sheet) slot (lineKey col (change line)) :=
  ColumnarTable.bind_modify here change _

end Sheet

def TableOp.WithoutNullKey (schema : TableSchema) : TableOp → Prop
  | .insertOrUpdate _ row _ => ∀ col ∈ schema.columns, col.dataType ≠ .float →
      ColumnarTable.cellOf row col ≠ .null
  | .delete .. => True

namespace ColumnarTable

structure Indexed (tbl : ColumnarTable) (sheet : Sheet) : Prop where
  tracks : ∀ col ∈ tbl.schema.columns, Tracks (tbl.colIndexes col.name) (sheet.keyAt col)
  others : ∀ name, (∀ col ∈ tbl.schema.columns, name ≠ col.name) → tbl.colIndexes name = none

variable {tbl : ColumnarTable}

theorem Writes.no_others {after : ColumnarTable} {pkIndex : String → Option Nat}
    {isDeleted : List Bool} {change : ColumnDefinition → Entry → Entry}
    (writes : Writes tbl after pkIndex isDeleted change) (h : Indexed tbl sheet) (name : String)
    (absent : ∀ col ∈ tbl.schema.columns, name ≠ col.name) : after.colIndexes name = none :=
  (congrArg Prod.snd (writes.others name absent)).trans (h.others name absent)

theorem Refines.admits (h : Refines tbl sheet) {slot : Nat} {line : SheetRow}
    (here : sheet[slot]? = some line) {col : ColumnDefinition}
    (known : col ∈ tbl.schema.columns) :
    col.dataType.admits (line.cells col) = true := by
  obtain ⟨vec, -, typed, cells⟩ := h.cells col known
  apply TypedColumnVector.admits_of_mem_toList typed
  rw [cells]
  exact mem_map_of_mem (mem_of_getElem? here)

theorem lineKey_of_some (keyed : Sheet.lineKey col line = some key) :
    sqlValueIndexKey (line.cells col) = some key := by
  unfold Sheet.lineKey at keyed
  split at keyed
  · cases keyed
  · exact keyed

theorem Indexed.removeSlot (h : Indexed tbl sheet) (mem : col ∈ tbl.schema.columns)
    (here : sheet[slot]? = some line) :
    Tracks (removeSlot (line.cells col) slot (tbl.colIndexes col.name))
      (update (sheet.keyAt col) slot none) :=
  (h.tracks col mem).removeSlot fun _ keyed =>
    lineKey_of_some ((Sheet.keyAt_eq here).symm.trans keyed)

/-- A write puts its row into one slot.  In the index of a column the slot is taken from where
    it was, and listed under the value of the row, whatever the cell then is. -/
theorem Indexed.placed (h : Indexed tbl sheet) (refines : Refines tbl sheet) (pk : String)
    (row : RelationalRow) (ver : Nat) : ∃ slot,
      (∀ name, (∀ col ∈ tbl.schema.columns, name ≠ col.name) →
        (tbl.insertOrUpdate pk row ver).colIndexes name = none) ∧
      ∀ col ∈ tbl.schema.columns, ∃ base cell,
        (tbl.insertOrUpdate pk row ver).colIndexes col.name =
          addSlot (cellOf row col) slot base ∧
        Tracks base (update (sheet.keyAt col) slot none) ∧
        (sheet.put pk row).keyAt col = update (sheet.keyAt col) slot (sqlValueIndexKey cell) ∧
        col.dataType.admits cell = true ∧
        (col.dataType.admits (cellOf row col) = true → cell = cellOf row col) := by
  cases found : sheet.slotOf pk with
  | some slot =>
    obtain ⟨line, here⟩ := Sheet.getElem?_of_found found
    have writes := writes_update row ver refines.distinct ((refines.index pk).trans found)
    refine ⟨slot, writes.no_others h, fun col mem => ?_⟩
    obtain ⟨vec, kept, val⟩ := refines.getValue mem here
    have ents := congrArg Prod.snd (writes.entries col mem)
    simp only [entry, kept, updateEntry, val] at ents
    refine ⟨_, _, ents, h.removeSlot mem here, ?_,
      admits_overwrite (refines.admits here mem) (cellOf row col), fun fits => if_pos fits⟩
    simp only [Sheet.put, found]
    exact Sheet.keyAt_modify here _
  | none =>
    have writes := writes_append row ver refines.distinct ((refines.index pk).trans found)
    refine ⟨sheet.length, writes.no_others h, fun col mem => ?_⟩
    obtain ⟨vec, kept, -⟩ := refines.cells col mem
    have ents := congrArg Prod.snd (writes.entries col mem)
    simp only [entry, kept, appendEntry, refines.length] at ents
    have free : sheet.keyAt col sheet.length = none := by
      simp [Sheet.keyAt]
    refine ⟨_, _, ents, ?_, ?_, admits_fill _ (cellOf row col), fun fits => if_pos fits⟩
    · rw [← free, update_eq_self]
      exact h.tracks col mem
    · simp only [Sheet.put, found]
      exact bind_concat _

theorem Indexed.insertOrUpdate (h : Indexed tbl sheet) (refines : Refines tbl sheet) (ver : Nat)
    (typed : ∀ col ∈ tbl.schema.columns,
      cellOf row col = .null ∨ col.dataType.admits (cellOf row col) = true)
    (complete : ∀ col ∈ tbl.schema.columns, col.dataType ≠ .float → cellOf row col ≠ .null) :
    Indexed (tbl.insertOrUpdate pk row ver) (sheet.put pk row) := by
  obtain ⟨slot, others, placed⟩ := h.placed refines pk row ver
  have schema := schema_insertOrUpdate tbl pk row ver
  refine ⟨fun col mem => ?_, fun name absent => others name (schema ▸ absent)⟩
  rw [schema] at mem
  obtain ⟨base, cell, ents, without, keys, admitted, own⟩ := placed col mem
  have same : sqlValueIndexKey cell = sqlValueIndexKey (cellOf row col) := by
    apply key_of_written admitted
    rcases typed col mem with null | fits
    · refine .inr ⟨null, ?_⟩
      by_contra indexed
      exact complete col mem indexed null
    · exact .inl (own fits)
  have added := without.addSlot (update_self ..) (cellOf row col)
  rwa [update_idem, ← same, ← keys, ← ents] at added

theorem Indexed.delete (h : Indexed tbl sheet) (refines : Refines tbl sheet) :
    Indexed (tbl.delete pk) (sheet.erase pk) := by
  cases found : sheet.slotOf pk with
  | some slot =>
    obtain ⟨line, here⟩ := Sheet.getElem?_of_found found
    have writes := writes_delete refines.distinct ((refines.index pk).trans found)
    simp only [Sheet.erase, found]
    refine ⟨fun col mem => ?_, fun name absent => writes.no_others h name (writes.schema ▸ absent)⟩
    rw [writes.schema] at mem
    obtain ⟨vec, kept, val⟩ := refines.getValue mem here
    have ents := congrArg Prod.snd (writes.entries col mem)
    simp only [entry, kept, clearEntry, val] at ents
    rw [Sheet.keyAt_modify here, ents]
    exact h.removeSlot mem here
  | none =>
    have unknown := (refines.index pk).trans found
    simp only [Sheet.erase, found, ColumnarTable.delete, unknown]
    exact h

/-- The slot is a live row whose cell in the column reads back as the value. -/
def Reads (tbl : ColumnarTable) (col : String) (val : SqlValue) (slot : Nat) : Prop :=
  ∃ row, tbl.getRow slot = some row ∧ row.values col = some val

/-- The index lists each live row once, under the value that is read back from it, and the
    lookup of a foreign key answers as a scan does. -/
structure IndexAgrees (tbl : ColumnarTable) : Prop where
  listed : ∀ col ∈ tbl.schema.columns, ∀ val key, sqlValueIndexKey val = some key →
    (slotsUnder key (tbl.colIndexes col.name)).Nodup ∧
      ∀ slot, slot ∈ slotsUnder key (tbl.colIndexes col.name) ↔ tbl.Reads col.name val slot
  lookup : ∀ col val key, sqlValueIndexKey val = some key → tbl.targetExists col val =
      tbl.iterRows.any fun row => row.values col = some val

theorem Refines.reads_iff (h : Refines tbl sheet) (mem : col ∈ tbl.schema.columns)
    (val : SqlValue) :
    tbl.Reads col.name val slot ↔
      ∃ line, sheet[slot]? = some line ∧ line.isDeleted = false ∧ line.cells col = val := by
  unfold Reads
  rw [h.getRow]
  constructor
  · rintro ⟨row, live, read⟩
    obtain ⟨line, here, shown⟩ := Option.bind_eq_some_iff.mp live
    simp only [readLive, Option.ite_none_left_eq_some, Option.some.injEq] at shown
    rw [← shown.2, readRow_values h.distinct mem] at read
    exact ⟨line, here, Bool.eq_false_iff.mpr shown.1, Option.some.inj read⟩
  · rintro ⟨line, here, alive, rfl⟩
    refine ⟨readRow tbl.schema line, ?_, readRow_values h.distinct mem⟩
    rw [here, Option.bind_some, readLive, alive]
    rfl

theorem Refines.reads_iff_keyAt (h : Refines tbl sheet) (mem : col ∈ tbl.schema.columns)
    (keyed : sqlValueIndexKey val = some key) :
    tbl.Reads col.name val slot ↔ sheet.keyAt col slot = some key := by
  rw [h.reads_iff mem, Sheet.keyAt, Option.bind_eq_some_iff]
  constructor
  · rintro ⟨line, here, alive, rfl⟩
    refine ⟨line, here, ?_⟩
    rw [Sheet.lineKey, alive]
    exact keyed
  · rintro ⟨line, here, own⟩
    have alive : line.isDeleted = false := by
      cases deleted : line.isDeleted with
      | false => rfl
      | true => simp [Sheet.lineKey, deleted] at own
    exact ⟨line, here, alive, sqlValueIndexKey_inj (lineKey_of_some own) keyed⟩

theorem iterRows_any : (tbl.iterRows.any fun row => row.values col = some val) = true ↔
      ∃ slot, tbl.Reads col val slot := by
  simp only [any_eq_true, iterRows, mem_filterMap, mem_range, decide_eq_true_eq]
  constructor
  · rintro ⟨row, ⟨slot, -, here⟩, read⟩
    exact ⟨slot, row, here, read⟩
  · rintro ⟨slot, row, here, read⟩
    refine ⟨row, ⟨slot, ?_, here⟩, read⟩
    by_contra outside
    rw [getRow, getElem?_eq_none (Nat.not_lt.mp outside)] at here
    cases here

theorem isDeleted_of_reads (read : tbl.Reads col val slot) : tbl.isDeleted[slot]? = some false := by
  obtain ⟨row, here, -⟩ := read
  unfold getRow at here
  split at here
  · assumption
  · cases here

theorem targetExists_iff (keyed : sqlValueIndexKey val = some key) :
    tbl.targetExists col val = true ↔
      ∃ slot ∈ slotsUnder key (tbl.colIndexes col), tbl.isDeleted[slot]? = some false := by
  have alive : ∀ slot : Nat, (!(tbl.isDeleted[slot]?.getD true)) = true ↔
      tbl.isDeleted[slot]? = some false := by
    intro slot
    cases tbl.isDeleted[slot]? with
    | none | some => simp
  unfold targetExists slotsUnder
  rw [keyed, Option.bind_some]
  cases (tbl.colIndexes col).bind fun idxMap => idxMap key with
  | none => simp
  | some slots => simp [alive]

theorem Indexed.agrees (h : Indexed tbl sheet) (refines : Refines tbl sheet) : tbl.IndexAgrees where
  listed col mem val key keyed := by
    obtain ⟨nodup, listed⟩ := h.tracks col mem key
    refine ⟨nodup, fun slot => ?_⟩
    rw [listed, refines.reads_iff_keyAt mem keyed]
  lookup name val key keyed := by
    rw [Bool.eq_iff_iff, targetExists_iff keyed, iterRows_any]
    by_cases known : ∃ col ∈ tbl.schema.columns, name = col.name
    · obtain ⟨col, mem, rfl⟩ := known
      have listed := (h.tracks col mem key).2
      simp only [listed, ← refines.reads_iff_keyAt mem keyed]
      exact exists_congr fun slot => and_iff_left_of_imp isDeleted_of_reads
    · have absent : ∀ col ∈ tbl.schema.columns, name ≠ col.name := by
        rintro col mem rfl
        exact known ⟨col, mem, rfl⟩
      have unnamed : name ∉ tbl.schema.columns.map ColumnDefinition.name := by
        rintro named
        obtain ⟨col, mem, rfl⟩ := mem_map.mp named
        exact absent col mem rfl
      rw [h.others name absent]
      constructor
      · rintro ⟨slot, listed, -⟩
        cases listed
      · rintro ⟨slot, row, live, read⟩
        rw [refines.getRow] at live
        obtain ⟨line, -, shown⟩ := Option.bind_eq_some_iff.mp live
        simp only [readLive, Option.ite_none_left_eq_some, Option.some.injEq] at shown
        rw [← shown.2, readRow_values_other unnamed] at read
        cases read

/-- A Null in a column with an index leaves the row out of the list of the value that the
    cell then has. -/
theorem Indexed.not_after_null (h : Indexed tbl sheet) (refines : Refines tbl sheet)
    (mem : col ∈ tbl.schema.columns) (indexed : col.dataType ≠ .float)
    (null : cellOf row col = .null) :
    ¬ (tbl.insertOrUpdate pk row ver).IndexAgrees := by
  intro agrees
  have known : col ∈ (tbl.insertOrUpdate pk row ver).schema.columns := by
    rwa [schema_insertOrUpdate]
  obtain ⟨slot, -, placed⟩ := h.placed refines pk row ver
  obtain ⟨base, cell, ents, without, keys, admitted, -⟩ := placed col mem
  obtain ⟨key, keyed⟩ := exists_key admitted indexed
  have reads : (tbl.insertOrUpdate pk row ver).Reads col.name cell slot := by
    rw [(refines.insertOrUpdate pk row ver).reads_iff_keyAt known keyed, keys, update_self, keyed]
  have listed := ((agrees.listed col known cell key keyed).2 slot).mpr reads
  rw [ents, slotsUnder_addSlot, null] at listed
  have own := ((without key).2 slot).mp listed
  rw [update_self] at own
  cases own

/-- The index agrees with the table after each call exactly if no row has a Null in a
    column that is not of floats. -/
theorem index_agrees_iff_no_null (schema : TableSchema)
    (uniq : (schema.columns.map ColumnDefinition.name).Nodup) (ops : List TableOp)
    (typed : ∀ op ∈ ops, op.WellTyped schema) :
    (∀ calls, (run schema (ops.take calls)).IndexAgrees) ↔
      ∀ op ∈ ops, op.WithoutNullKey schema := by
  apply Program.forall_take_iff (fun ops => Indexed (run schema ops) (Sheet.run ops))
    (fun ops => (run schema ops).IndexAgrees)
  · exact ⟨fun col _ => Tracks.empty, fun _ _ => rfl⟩
  · exact fun earlier indexed => indexed.agrees (refines_run uniq earlier).2
  · intro earlier op mem indexed keyed
    obtain ⟨same, refines⟩ := refines_run uniq earlier
    have admitted := typed op mem
    rw [← same] at admitted keyed
    rw [run, Sheet.run, foldl_append, foldl_append]
    cases op with
    | insertOrUpdate pk row ver => exact indexed.insertOrUpdate refines ver admitted keyed
    | delete pk ver => exact indexed.delete refines
  · intro earlier op held after
    cases op with
    | delete pk ver => trivial
    | insertOrUpdate pk row ver =>
      intro col known indexed null
      obtain ⟨same, refines⟩ := refines_run uniq earlier
      rw [← same] at known
      rw [run, foldl_append] at after
      exact held.not_after_null refines known indexed null after

def meterSchema : TableSchema where
  name := "meters"
  columns := [⟨"id", .text, true, false, none⟩, ⟨"level", .integer, false, true, none⟩,
    ⟨"reading", .float, false, true, none⟩]
  primaryKeyColumn := "id"

def meterRow (id : String) (level : SqlValue) : RelationalRow :=
  ⟨fun name => if name = "id" then some (.text id) else if name = "level" then some level else none⟩

def meterCalls : List TableOp :=
  [.insertOrUpdate "a" (meterRow "a" (.integer 7)) 2,
    .insertOrUpdate "b" (meterRow "b" (.integer 7)) 3,
    .insertOrUpdate "a" (meterRow "a" (.integer 8)) 4, .delete "b" 5,
    .insertOrUpdate "b" (meterRow "b" (.integer 8)) 6]

/-- The readings are Null throughout, which no index is kept for. -/
theorem meter_calls_keep_index : (∀ calls, (run meterSchema (meterCalls.take calls)).IndexAgrees) ∧
      slotsUnder "i:8" ((run meterSchema meterCalls).colIndexes "level") = [0, 1] := by
  refine ⟨(index_agrees_iff_no_null meterSchema (by decide) meterCalls ?_).mpr ?_, by decide⟩ <;>
    simp [meterCalls, TableOp.WellTyped, TableOp.WithoutNullKey, meterSchema, meterRow, cellOf,
      admits]

/-- A level that is set to Null still reads 7, but a foreign key to 7 is refused. -/
theorem null_level_leaves_index :
    let tbl := run meterSchema [.insertOrUpdate "a" (meterRow "a" (.integer 7)) 2,
      .insertOrUpdate "a" (meterRow "a" .null) 3]
    tbl.iterRows.map (·.values "level") = [some (.integer 7)] ∧
      slotsUnder "i:7" (tbl.colIndexes "level") = [] ∧
      tbl.targetExists "level" (.integer 7) = false ∧ ¬ tbl.IndexAgrees := by
  refine ⟨by decide, by decide, by decide, fun agrees => ?_⟩
  have answers := agrees.lookup "level" (.integer 7) "i:7" (by decide)
  revert answers
  decide

end ColumnarTable
end HoloSphere.Relational

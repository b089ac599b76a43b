import HoloSphere.Relational.Interleaving
import HoloSphere.Relational.TableMap
import HoloSphere.Store.References

/-! # Referential integrity

Foreign keys over whole runs of interleaved transactions and replicated rows.  The engine
looks a foreign key up when a row is staged and never again; a commit, a replicated row and
a deletion write what they have.  Which of the writes keep the references is said here by
the check that each would need in the state it meets.
-/

namespace HoloSphere.Relational
open Program Store Function RelationalSqlEngine Option
namespace ColumnarTable

/-- The slot that a write for the key goes to. -/
def slotFor (pk : String) (tbl : ColumnarTable) : Nat := (tbl.pkIndex pk).getD tbl.isDeleted.length

/-- The cells of the slot as they are, deleted or not. -/
def lineAt (slot : Nat) (tbl : ColumnarTable) (col : ColumnDefinition) : SqlValue :=
  ((tbl.columns col.name).map fun cells => cells.getValue slot).getD .null

/-- The row as the table will have it: a value that is not of its column's type, Null among
    them, becomes the zero of the type in a new row and the old value in a known one. -/
def storedRow (pk : String) (row : RelationalRow) (tbl : ColumnarTable) : RelationalRow :=
  readRow tbl.schema
    (match tbl.pkIndex pk with
    | none => .fresh pk row
    | some slot => SheetRow.written row ⟨pk, false, tbl.lineAt slot⟩)

theorem readRow_congr {schema : TableSchema} {line other : SheetRow}
    (same : ∀ col ∈ schema.columns, line.cells col = other.cells col) :
    readRow schema line = readRow schema other := by
  unfold readRow
  congr 1
  apply List.foldl_ext
  intro values col mem
  rw [same col mem]

theorem Refines.lineAt (h : Refines tbl sheet) (here : sheet[slot]? = some line)
    (mem : col ∈ tbl.schema.columns) : tbl.lineAt slot col = line.cells col := by
  obtain ⟨vector, stored, val⟩ := h.getValue mem here
  simp [ColumnarTable.lineAt, stored, val]

theorem Refines.getRow_eq (h : Refines tbl sheet) :
    (fun slot => tbl.getRow slot) = fun slot => sheet[slot]?.bind (readLive tbl.schema) :=
  funext h.getRow

theorem Refines.getRow_insertOrUpdate (h : Refines tbl sheet) :
    (fun slot => (tbl.insertOrUpdate pk row ver).getRow slot) =
      update (fun slot => tbl.getRow slot) (tbl.slotFor pk)
        (some (tbl.storedRow pk row)) := by
  rw [(h.insertOrUpdate pk row ver).getRow_eq, h.getRow_eq, schema_insertOrUpdate]
  unfold Sheet.put slotFor storedRow
  rw [h.index pk, h.length]
  cases found : sheet.slotOf pk with
  | some slot =>
    obtain ⟨line, here⟩ := Sheet.getElem?_of_found found
    have kept : readRow tbl.schema (line.written row) =
        readRow tbl.schema (SheetRow.written row ⟨pk, false, tbl.lineAt slot⟩) := by
      apply readRow_congr
      intro col mem
      simp [SheetRow.written, h.lineAt here mem]
    exact (bind_modify here _ _).trans (congrArg _ (congrArg some kept))
  | none => exact bind_concat _

theorem Refines.getRow_delete (h : Refines tbl sheet) : (fun slot => (tbl.delete pk).getRow slot) =
      update (fun slot => tbl.getRow slot) (tbl.slotFor pk) none := by
  rw [(h.delete pk).getRow_eq, h.getRow_eq, schema_delete]
  unfold Sheet.erase slotFor
  rw [h.index pk, h.length]
  cases found : sheet.slotOf pk with
  | some slot =>
    obtain ⟨line, here⟩ := Sheet.getElem?_of_found found
    exact bind_modify here _ _
  | none =>
    symm
    simp [update_eq_self_iff]

end ColumnarTable

namespace StagedWrite

/-- What the slot of the write holds afterwards. -/
def result (write : StagedWrite) (tbl : ColumnarTable) : Option RelationalRow :=
  write.row.map fun row => tbl.storedRow write.pk row

end StagedWrite

def TableSchema.links (schema : TableSchema) : List (Link String String) :=
  schema.columns.filterMap fun col =>
    col.foreignKeyTarget.map fun tgt => ⟨col.name, tgt.1, tgt.2⟩

namespace RelationalSqlEngine

/-- The live rows, by table and slot. -/
def rows (eng : RelationalSqlEngine) (addr : String × Nat) : Option RelationalRow :=
  (eng.storage addr.1).bind fun tbl => tbl.getRow addr.2

def links (eng : RelationalSqlEngine) (tbl : String) : List (Link String String) :=
  ((eng.storage tbl).map fun tbl => tbl.schema.links).getD []

/-- Every foreign key that is not Null finds its value in a live row of its target. -/
def ReferencesResolve (eng : RelationalSqlEngine) : Prop :=
  Resolved Prod.fst RelationalRow.values (· = SqlValue.null) eng.links eng.rows

/-- The write finds the targets of the row that it leaves and takes no target away. -/
def Checked (eng : RelationalSqlEngine) (write : StagedWrite) : Prop :=
  ∀ tbl, eng.storage write.table = some tbl →
    KeepsReferences Prod.fst RelationalRow.values (· = SqlValue.null) eng.links eng.rows
      (write.table, tbl.slotFor write.pk) (write.result tbl)

/-- The tables are stored as they should be, each under a known schema. -/
structure Sound (eng : RelationalSqlEngine) : Prop where
  schemas : ∀ name, eng.tables name = (eng.storage name).map ColumnarTable.schema
  refines : ∀ name tbl, eng.storage name = some tbl → ∃ sheet, ColumnarTable.Refines tbl sheet

variable {eng : RelationalSqlEngine}

theorem Sound.storage_eq_none (h : eng.Sound) (unknown : eng.tables name = none) :
    eng.storage name = none := by
  rw [h.schemas, map_eq_none_iff] at unknown
  exact unknown

theorem Sound.held (h : eng.Sound) (name : String) (known : (eng.tables name).isSome) :
    (eng.storage name).isSome := by
  rw [h.schemas, isSome_map] at known
  exact known

section
variable (ver : Nat) (write : StagedWrite)

theorem onTable_refines (h : ColumnarTable.Refines tbl sheet) :
    ∃ sheet, ColumnarTable.Refines (write.onTable ver tbl) sheet := by
  unfold StagedWrite.onTable
  cases write.row with
  | some row => exact ⟨_, h.insertOrUpdate ..⟩
  | none => exact ⟨_, h.delete _⟩

theorem onTable_getRow (h : ColumnarTable.Refines tbl sheet) :
    (fun slot => (write.onTable ver tbl).getRow slot) =
      update (fun slot => tbl.getRow slot) (tbl.slotFor write.pk)
        (write.result tbl) := by
  unfold StagedWrite.onTable StagedWrite.result
  cases write.row with
  | some row => exact h.getRow_insertOrUpdate ..
  | none => exact h.getRow_delete

end

section
variable (wrote : Wrote eng after ver write)
include wrote

theorem Wrote.sound (h : eng.Sound) : after.Sound := by
  refine ⟨fun name => ?_, fun name tbl found => ?_⟩
  · rw [wrote.tables, h.schemas, wrote.storage_at]
    split
    · cases eng.storage name <;> simp [StagedWrite.onTable_schema]
    · rfl
  · rw [wrote.storage_at] at found
    split at found
    · obtain ⟨old, stored, rfl⟩ := map_eq_some_iff.mp found
      obtain ⟨sheet, refines⟩ := h.refines name old stored
      exact onTable_refines ver write refines
    · exact h.refines name tbl found

theorem Wrote.links : after.links = eng.links := by
  funext name
  unfold RelationalSqlEngine.links
  rw [wrote.storage_at]
  split
  · cases eng.storage name <;> simp [StagedWrite.onTable_schema]
  · rfl

theorem Wrote.rows (h : eng.Sound) (stored : eng.storage write.table = some tbl) :
    after.rows = update eng.rows (write.table, tbl.slotFor write.pk) (write.result tbl) := by
  obtain ⟨sheet, refines⟩ := h.refines _ _ stored
  funext addr
  obtain ⟨name, slot⟩ := addr
  simp only [RelationalSqlEngine.rows, wrote.storage_at]
  by_cases same : name = write.table
  · subst same
    have read := congrFun (onTable_getRow ver write refines) slot
    simp only [if_true, stored, map_some, bind_some]
    rw [read]
    by_cases here : slot = tbl.slotFor write.pk
    · rw [here, update_self, update_self]
    · have apart : (write.table, slot) ≠ (write.table, tbl.slotFor write.pk) :=
        fun equal => here (congrArg Prod.snd equal)
      rw [update_of_ne here, update_of_ne apart]
      simp [RelationalSqlEngine.rows, stored]
  · have apart : (name, slot) ≠ (write.table, tbl.slotFor write.pk) :=
      fun equal => same (congrArg Prod.fst equal)
    rw [update_of_ne apart]
    simp [RelationalSqlEngine.rows, same]

/-- A write keeps the references exactly if it passes the check. -/
theorem Wrote.resolve_iff (h : eng.Sound)
    (resolve : eng.ReferencesResolve) : after.ReferencesResolve ↔ eng.Checked write := by
  unfold ReferencesResolve
  rw [wrote.links]
  cases stored : eng.storage write.table with
  | none =>
    have same : after.storage = eng.storage := by
      rw [wrote.storage, StagedWrite.onStorage, stored]
    unfold RelationalSqlEngine.rows
    rw [same]
    refine iff_of_true resolve fun tbl found => ?_
    rw [stored] at found
    cases found
  | some tbl =>
    rw [wrote.rows h stored, resolved_update_iff resolve]
    constructor
    · intro keeps other found
      rw [stored] at found
      cases found
      exact keeps
    · exact fun checked => checked tbl stored

end

/-- For a row at a free slot the check is the lookup of its foreign keys. -/
theorem checked_of_free {write : StagedWrite} (stored : eng.storage write.table = some tbl)
    (free : tbl.getRow (tbl.slotFor write.pk) = none) (keyed : tbl.schema.links = foreignKeys)
    (held : ∀ link ∈ foreignKeys, ∃ val slot,
      (write.result tbl).bind (·.values link.column) = some val ∧
        (eng.rows (link.target, slot)).bind (·.values link.targetColumn) = some val) :
    eng.Checked write := by
  intro other found
  rw [stored] at found
  cases found
  have vacant : eng.rows (write.table, tbl.slotFor write.pk) = none := by
    rw [rows, stored]
    exact free
  constructor
  · intro row result link mem val read _
    simp only [links, stored, map_some, getD_some, keyed] at mem
    obtain ⟨own, slot, cell, found⟩ := held link mem
    rw [result, bind_some, read] at cell
    cases cell
    obtain ⟨tgt, here, holds⟩ := bind_eq_some_iff.mp found
    refine .inr ⟨(link.target, slot), tgt, ?_, here, rfl, holds⟩
    intro same
    rw [same, vacant] at here
    cases here
  · intro old here
    rw [vacant] at here
    cases here

/-- A new table has no rows yet. -/
theorem withTable_sound {schema : TableSchema}
    (uniq : (schema.columns.map ColumnDefinition.name).Nodup) (h : eng.Sound)
    (unknown : eng.tables schema.name = none) : (eng.withTable schema).Sound ∧
      (eng.ReferencesResolve → (eng.withTable schema).ReferencesResolve) := by
  have absent := h.storage_eq_none unknown
  unfold withTable
  refine ⟨⟨fun name => ?_, fun name tbl found => ?_⟩, fun resolve => ?_⟩
  · by_cases same : name = schema.name
    · subst same
      simp [ColumnarTable.new]
    · simp only [update_of_ne same]
      exact h.schemas name
  · by_cases same : name = schema.name
    · subst same
      simp only [update_self, some.injEq] at found
      subst found
      exact ⟨[], .new uniq⟩
    · simp only [update_of_ne same] at found
      exact h.refines name tbl found
  · rintro ⟨name, slot⟩ row here link mem val read present
    have elsewhere : name ≠ schema.name := by
      rintro rfl
      simp [rows, ColumnarTable.new, ColumnarTable.getRow] at here
    simp only [rows, links, update_of_ne elsewhere] at here mem
    obtain ⟨tgt, other, found, named, holds⟩ :=
      resolve (name, slot) row here link mem val read present
    refine ⟨tgt, other, ?_, named, holds⟩
    have kept : tgt.1 ≠ schema.name := by
      intro same
      rw [rows, same, absent] at found
      cases found
    simp only [rows, update_of_ne kept]
    exact found

theorem new_sound : (new : RelationalSqlEngine).Sound := by
  constructor
  · intro name
    rfl
  · intro name tbl found
    cases found

theorem new_resolve : (new : RelationalSqlEngine).ReferencesResolve := by
  intro addr row here
  cases here

end RelationalSqlEngine

namespace SqlMachine

/-- `create_table` does not look for two columns of one name. -/
def DistinctColumns : SqlAction → Prop
  | .createTable schema => (schema.columns.map ColumnDefinition.name).Nodup
  | _ => True

/-- The row that is written now, by a commit or by replication, passes the check that it
    would need now. -/
def WritesChecked (m : SqlMachine) : SqlAction → Prop
  | .commitWrite => ∀ commit write, m.committing = some commit →
      commit.writes[commit.written]? = some write → m.engine.Checked write
  | .applyCommitted tbl row isDelete => ∀ write,
      m.engine.replicatedWrite tbl row isDelete = some write → m.engine.Checked write
  | _ => True

theorem resolve_step {m : SqlMachine} (sound : m.engine.Sound)
    (resolve : m.engine.ReferencesResolve) (uniq : DistinctColumns action)
    (done : m.act action = some next) :
    next.engine.Sound ∧ (next.engine.ReferencesResolve ↔ m.WritesChecked action) := by
  -- a step that leaves the tables alone needs no check
  have idle : m.engine.Sound ∧ (m.engine.ReferencesResolve ↔ True) :=
    ⟨sound, iff_of_true resolve trivial⟩
  cases effect_of_act done with
  | createRefused | beginTransaction | prepareInsert | stage | rollback | commitRefused
  | endCommit | beginSnapshot | openStorage | cloneTable | endSnapshot => exact idle
  | createTable absent =>
    obtain ⟨kept, later⟩ := withTable_sound uniq sound absent
    exact ⟨kept, iff_of_true (later resolve) trivial⟩
  | beginCommit free active => exact ⟨{ sound with }, idle.2⟩
  | @commitWrite commit write running nextWrite =>
    have wrote := m.engine.wrote_writeRow commit.version write
    refine ⟨wrote.sound sound, (wrote.resolve_iff sound resolve).trans ⟨?_, ?_⟩⟩
    · intro checked other later found here
      rw [running] at found
      cases found
      rw [nextWrite] at here
      cases here
      exact checked
    · exact fun checked => checked _ _ running nextWrite
  | applyRefused refused =>
    refine ⟨sound, iff_of_true resolve fun write stands => ?_⟩
    cases refused.symm.trans stands
  | applyCommitted stands known wrote =>
    have wrote := wrote (sound.held _ known)
    refine ⟨wrote.sound sound, (wrote.resolve_iff sound resolve).trans ⟨?_, ?_⟩⟩
    · intro checked write found
      rw [stands] at found
      cases found
      exact checked
    · exact fun checked => checked _ stands

/-- The foreign keys resolve in every state of a run exactly if each row that is written in
    it passes the check in the state that it meets. -/
theorem references_resolve_iff_writes_checked (actions : List SqlAction)
    (uniq : ∀ action ∈ actions, DistinctColumns action) :
    Always act (fun m => m.engine.ReferencesResolve) new actions ↔
      Throughout act WritesChecked new actions :=
  always_iff_throughout (fun m => m.engine.Sound)
    (fun _ _ _ sound resolve legal done => resolve_step sound resolve legal done)
    uniq new_sound new_resolve

def customerSchema : TableSchema where
  name := "customers"
  columns := [⟨"id", .text, true, false, none⟩]
  primaryKeyColumn := "id"

def purchaseSchema : TableSchema where
  name := "purchases"
  columns := [⟨"id", .text, true, false, none⟩,
    ⟨"customer", .text, false, false, some ("customers", "id")⟩]
  primaryKeyColumn := "id"

def customerRow (id : String) : RelationalRow :=
  ⟨fun name => if name = "id" then some (.text id) else none⟩

def purchaseRow (id customer : String) : RelationalRow :=
  ⟨fun name => if name = "id" then some (.text id)
    else if name = "customer" then some (.text customer) else none⟩

/-- A customer is replicated and a transaction stages a purchase of theirs. -/
def stagedPurchase : List SqlAction :=
  [.createTable customerSchema, .createTable purchaseSchema,
    .applyCommitted "customers" (customerRow "ann") false, .beginTransaction,
    .prepareInsert 1 "purchases" (purchaseRow "p1" "ann"), .stage 0]

theorem purchase_run_resolves : Always act (fun m => m.engine.ReferencesResolve) new
      (stagedPurchase ++ [.beginCommit 1, .commitWrite, .endCommit]) := by
  apply (references_resolve_iff_writes_checked _ ?_).mpr
  · refine .cons rfl trivial (.cons rfl trivial (.cons rfl ?customer (.cons rfl trivial
      (.cons rfl trivial (.cons rfl trivial (.cons rfl trivial (.cons rfl ?purchase
        (.cons rfl trivial trivial))))))))
    case customer =>
      rintro write ⟨⟩
      exact checked_of_free rfl rfl rfl (List.forall_mem_nil _)
    case purchase =>
      rintro commit write ⟨⟩ ⟨⟩
      exact checked_of_free rfl rfl rfl
        (List.forall_mem_singleton.mpr ⟨.text "ann", 0, rfl, rfl⟩)
  · simp [stagedPurchase, DistinctColumns, customerSchema, purchaseSchema]

/-- The customer is deleted after the check and before the commit. -/
theorem commit_leaves_dangling_purchase :
    ∃ final, (stagedPurchase ++ [SqlAction.applyCommitted "customers" (customerRow "ann") true,
        SqlAction.beginCommit 1, SqlAction.commitWrite, SqlAction.endCommit]).foldlM act new =
          some final ∧
      ¬ final.engine.ReferencesResolve := by
  refine ⟨_, rfl, fun resolve => ?_⟩
  obtain ⟨⟨name, slot⟩, row, here, named, -⟩ :=
    resolve ("purchases", 0) _ rfl ⟨"customer", "customers", "id"⟩ List.mem_cons_self _ rfl
      (by decide)
  cases named
  cases slot with
  | zero | succ => cases here

end SqlMachine
end HoloSphere.Relational
